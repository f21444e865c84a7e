import EdgeAgent.Clock.Timeline

/-! # Units

A unit is what a worker works with: it is built from parameters, and has actions
that take their time and may fail. -/

namespace EdgeAgent

/-- Units `υ`, their parameters `π` and their actions `α`. -/
class Craft (υ : Type) (π α : outParam Type) where
  /-- The actions that units with these parameters have. -/
  capabilities : π → List α
  build : π → Nat → World → Except UnitError υ × World
  /-- Begins an action. -/
  perform : υ → α → Nat → World → Course υ UnitError × World
  actionName : α → String

end EdgeAgent

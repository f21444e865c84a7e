import EdgeAgent.Json.Record
import EdgeAgent.Monitor.Basic

/-! # Vulnerabilities

A scanner leaves its findings in a file of the shared directory. The most severe
ones are reported, with a summary of all. -/

namespace EdgeAgent

/-- The most severe findings, and what there is to say about all of them. -/
structure VulnerabilityReport where
  total : Nat
  /-- Ascending, each product once. -/
  products : List String
  /-- The mean of the scores that are known. -/
  average : Option Double
  items : List Json

namespace VulnerabilityReport

def capacity : Nat := 100

def unscored : Double := Double.ofInt (-1)

def writtenScore? (item : Json) : Option Double :=
  (item.member? "vulnerability-score").bind Json.number?

def score? (item : Json) : Option Double :=
  (writtenScore? item).filter fun x => !x.same unscored

/-- The score by which a finding takes its place. -/
def severity (item : Json) : Double := (writtenScore? item).getD (Double.ofNat 0)

def product (item : Json) : String := ((item.member? "product").bind Json.text?).getD "unknown"

def precedes (a b : Json) : Bool := (severity b).rank ≤ (severity a).rank

def mean (scores : List Double) : Double :=
  let hundred := Double.ofNat 100
  let sum := scores.foldl (· + ·) (Double.zero true)
  Double.roundAway (sum / Double.ofNat scores.length * hundred) / hundred

/-- The report on some findings, if there are any. -/
def ofItems (items : List Json) : Option VulnerabilityReport :=
  if items.isEmpty then none
  else
    let scores := items.filterMap score?
    some {
      total := items.length
      products := (Table.ofList (items.map fun i => (product i, ()))).keys
      average := if scores.isEmpty then none else some (mean scores)
      items := (items.mergeSort precedes).take capacity }

def toJson (r : VulnerabilityReport) : Json :=
  let summary : Document := Table.ofList
    [("total", .ofNat r.total), ("affected-products", Json.texts r.products)]
  let summary := match r.average with
    | some x => summary.insert "average-score" (.ofDouble x)
    | none => summary
  .ofDocument (Table.ofList [("summary", .ofDocument summary), ("items", .arr r.items)])

end VulnerabilityReport

structure Vulnerabilities where
  report : Option VulnerabilityReport := none

namespace Vulnerabilities

instance : Inhabited Vulnerabilities := ⟨{}⟩

def file (shared : Path) : Path := shared ++ ["vulnerabilities"]

/-- Reads the file again. A file that is missing or holds no finding leaves the
last report in place. -/
def update (v : Vulnerabilities) (w : World) : Except MonitorError Vulnerabilities :=
  match w.files.read (file w.sharedRoot) with
  | .error .notFound => .ok v
  | .error e => .error (.storage e)
  | .ok s =>
    if Text.isBlankText s then .ok v
    else
      match Json.parseItems s with
      | .error m => .error (.undecodable m)
      | .ok items =>
        match VulnerabilityReport.ofItems items with
        | some report => .ok ⟨some report⟩
        | none => .ok v

def populate (v : Vulnerabilities) (p : Payload) : Payload :=
  match v.report with
  | some r => p.put .vulnerabilities r.toJson
  | none => p

end Vulnerabilities
end EdgeAgent

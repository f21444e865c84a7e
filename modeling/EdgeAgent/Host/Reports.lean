import EdgeAgent.Host
import EdgeAgent.Number.Decimal

/-! # Reports of the kernel

The kernel tells how busy the host is in small texts, a figure to a word or to a
line. What a text does not tell keeps its last value. -/

namespace EdgeAgent.Host

/-- The figure behind a title at the beginning of a line. -/
def figure? (report title : String) : Option Nat :=
  (Text.lines report).findSome? fun line =>
    match Text.words line with
    | head :: value :: _ =>
      if head = title then (Decimal.natural Decimal.maxWord value).toOption else none
    | _ => none

def withLoads (h : Host) (report : String) : Host :=
  match (Text.words report).map Decimal.double? with
  | some one :: some five :: some fifteen :: _ =>
    { h with load1 := one, load5 := five, load15 := fifteen }
  | _ => h

/-- Takes over how much memory there is and how much of it is in use; the report
counts in units of 1024 bytes. -/
def withMemory (h : Host) (report : String) : Host :=
  match figure? report "MemTotal:", figure? report "MemAvailable:" with
  | some total, some available =>
    { h with memory := total * 1024, usedMemory := (total - available) * 1024 }
  | _, _ => h

def withBoot (h : Host) (report : String) : Host :=
  match figure? report "btime" with
  | some seconds => { h with bootDate := ⟨seconds, 0⟩ }
  | none => h

def assigned? (text name : String) : Option String :=
  (Text.lines text).findSome? fun line =>
    match Text.splitChars (· == '=') line.toList with
    | [key, value] =>
      if String.ofList key = name then some (String.ofList (value.filter (· != '"'))) else none
    | _ => none

/-- The name of the operating system, with its distribution as far as it is
known. -/
def systemName (release : String) : String :=
  match assigned? release "NAME", assigned? release "VERSION_ID" with
  | name, some version => "Linux (" ++ name.getD "unknown" ++ " " ++ version ++ ")"
  | some name, none => "Linux (" ++ name ++ ")"
  | none, none => "Linux"

end EdgeAgent.Host

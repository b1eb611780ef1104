import OneShot.Script.Environment

/-!
# Reports

How scripts and their readers see outcomes: `["ok", v]`, `["err", name, message]` and
`["panic", v]`. A user's error also shows its chain, one `[kind, message]` for each link. The same
way back, an *error spec* in a script describes a user's error.
-/

namespace OneShot.Script

/-- A cause and its sources, each as its kind and message. -/
def chainDatum (c : Cause) : Datum :=
  .list (c.chain.map fun link => .list [.text link.kindName, .text link.message])

/-- A failure as a datum. -/
def failureDatum (f : Failure) : Datum :=
  let head := [.text "err", .text f.name, .text f.message]
  match f.carried? with
  | some c => .list (head ++ [chainDatum c])
  | none => .list head

/-- A value as the datum of a success. -/
def valueDatum (d : Datum) : Datum := .list [.text "ok", d]

/-- A payload as the datum of a panic. -/
def panicDatum (d : Datum) : Datum := .list [.text "panic", d]

/-- An outcome as a datum. -/
def outcomeDatum : Outcome Datum Datum → Datum
  | .value d => valueDatum d
  | .failure f => failureDatum f
  | .panic d => panicDatum d

/-- The failure with the given name, of those that a script can name. -/
def failureNamed? : String → Option Failure
  | "Canceled" => some .canceled
  | "NoResumePoint" => some .noResumePoint
  | "ContinuationReused" => some .continuationReused
  | "Detached" => some .detached
  | _ => none

/-- The error that an error spec describes: a text, `[kind, message]`, `[kind, message, source]`,
`["Body", spec]` or the name of a failure in a list of its own. -/
def causeOf? : Datum → Option Cause
  | .text s => some (.plain Kind.other s)
  | .list [.text name] => (failureNamed? name).map .failure
  | .list [.text "Body", spec] => (causeOf? spec).map fun c => .failure (.body c)
  | .list [.text kind, .text message] => some (.plain ⟨kind⟩ message)
  | .list [.text kind, .text message, .null] => some (.plain ⟨kind⟩ message)
  | .list [.text kind, .text message, spec] => (causeOf? spec).map (.caused ⟨kind⟩ message)
  | _ => none

/-- The error that an error spec describes, or the fault `type`. -/
def Prog.cause (spec : Datum) : Prog Cause := orFault .type (causeOf? spec)

/-- What an arm or a test for the given word accepts; any other word accepts everything. -/
def matcherOf? : String → Option Matcher
  | "Error" => some .failure
  | "A" => some (.kind ⟨"A"⟩)
  | "B" => some (.kind ⟨"B"⟩)
  | "C" => some (.kind ⟨"C"⟩)
  | "D" => some (.kind ⟨"D"⟩)
  | _ => none

end OneShot.Script

import FormulaShell.Script.Scan
import FormulaShell.Text.Word

namespace FormulaShell.Script

open FormulaShell.Text

inductive Statement where
  | assignment (name expression : String)
  | namedFormula (name formula : String)
  | functionDefinition (source : String)
  | evaluation (expression : String)
  | empty
  deriving DecidableEq, Repr

def after? (c : Char) : List Char → Option (List Char)
  | [] => none
  | d :: rest => if d = c then some rest else none

def word? (cs : List Char) : Option (List Char × List Char) :=
  match cs.takeWhile isWordChar with
  | [] => none
  | w => some (w, cs.dropWhile isWordChar)

def afterWord? (cs : List Char) : Option (List Char) := (word? cs).map fun p => trimStart p.2

/-- `cs` less a closing parenthesis at its end. -/
def beforeClose? (cs : List Char) : Option (List Char) := (after? ')' cs.reverse).map List.reverse

def assignment? (cs : List Char) : Option (List Char × List Char) :=
  match cs with
  | 'S' :: 'e' :: 't' :: rest => do
    let inside ← after? '(' (trimStart rest)
    let (name, rest) ← word? (trimStart inside)
    let expression ← after? ',' (trimStart rest)
    (beforeClose? expression).map fun e => (name, trim e)
  | _ => none

def namedFormula? (cs : List Char) : Option (List Char × List Char) := do
  let (name, rest) ← word? cs
  let formula ← after? '=' (trimStart rest)
  if (after? '=' formula).isSome then none else some (name, trim formula)

def afterParam? (cs : List Char) : Option (List Char) := do
  let rest ← after? ':' (← afterWord? cs)
  let rest ← afterWord? (trimStart rest)
  some ((after? ',' rest).getD rest)

theorem length_after? {c : Char} {cs rest : List Char} (h : after? c cs = some rest) :
    rest.length < cs.length := by
  cases cs with
  | nil => simp [after?] at h
  | cons d ds =>
    simp only [after?] at h
    split at h
    · simp_all
    · simp at h

theorem length_trimStart (cs : List Char) : (trimStart cs).length ≤ cs.length :=
  (List.dropWhile_sublist _).length_le

theorem length_afterWord? {cs rest : List Char} (h : afterWord? cs = some rest) :
    rest.length ≤ cs.length := by
  obtain ⟨p, hp, rfl⟩ := Option.map_eq_some_iff.mp h
  refine Nat.le_trans (length_trimStart _) ?_
  unfold word? at hp
  split at hp
  · simp at hp
  · obtain rfl := Option.some.inj hp
    exact (List.dropWhile_sublist _).length_le

theorem length_afterParam? {cs rest : List Char} (h : afterParam? cs = some rest) :
    rest.length < cs.length := by
  simp only [afterParam?, Option.bind_eq_bind, Option.bind_eq_some_iff] at h
  obtain ⟨a, ha, b, hb, d, hd, he⟩ := h
  have h1 := length_afterWord? ha
  have h2 := length_after? hb
  have h3 := Nat.le_trans (length_afterWord? hd) (length_trimStart b)
  obtain rfl := Option.some.inj he
  cases hc : after? ',' d with
  | none => simp only [Option.getD_none]; omega
  | some e => have := length_after? hc; simp only [Option.getD_some]; omega

def afterParams? (cs : List Char) : Option (List Char) :=
  match after? ')' (trimStart cs) with
  | some rest => some rest
  | none =>
    match _h : afterParam? (trimStart cs) with
    | none => none
    | some rest => afterParams? rest
termination_by cs.length
decreasing_by exact Nat.lt_of_lt_of_le (length_afterParam? _h) (length_trimStart cs)

/-- A word, parameters in parentheses, a colon and a type, before an equals sign or a brace. -/
def isDefinition (cs : List Char) : Bool :=
  let body? : Option (List Char) := do
    let params ← after? '(' (← afterWord? cs)
    let result ← after? ':' (trimStart (← afterParams? params))
    afterWord? (trimStart result)
  match body? with
  | some ('=' :: _) => true
  | some ('{' :: _) => true
  | _ => false

def classify (source : List Char) : Statement :=
  let cs := trim source
  if (scan cs).useful = 0 then .empty
  else
    match assignment? cs with
    | some (name, e) => .assignment (String.ofList name) (String.ofList e)
    | none =>
      match namedFormula? cs with
      | some (name, f) => .namedFormula (String.ofList name) (String.ofList f)
      | none =>
        if isDefinition cs then .functionDefinition (String.ofList cs)
        else .evaluation (String.ofList cs)

end FormulaShell.Script

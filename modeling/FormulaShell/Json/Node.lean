import FormulaShell.Parsed

namespace FormulaShell.Json

/-- A number with its digits, of which those of the fraction and the exponent may be missing. -/
structure Numeral where
  negative : Bool
  whole : List Char
  fraction : List Char
  exponent : Option (Bool × List Char)
  deriving DecidableEq, Repr

/-- A character, or a UTF-16 unit that is given by its number. -/
inductive Piece where
  | char (c : Char)
  | unit (n : Nat)
  deriving DecidableEq, Repr

inductive Node where
  | null
  | boolean (b : Bool)
  | number (n : Numeral)
  | text (s : List Piece)
  | array (items : List Node)
  | object (members : List (List Piece × Node))

def isBlank (c : Char) : Bool := c == ' ' || c == '\n' || c == '\t' || c == '\r'

def skip (cs : List Char) : List Char := cs.dropWhile isBlank

theorem length_skip (cs : List Char) : (skip cs).length ≤ cs.length :=
  (List.dropWhile_sublist _).length_le

def hexDigit? (c : Char) : Option Nat :=
  if '0' ≤ c ∧ c ≤ '9' then some (c.toNat - 48)
  else if 'a' ≤ c ∧ c ≤ 'f' then some (c.toNat - 87)
  else if 'A' ≤ c ∧ c ≤ 'F' then some (c.toNat - 55)
  else none

def hexUnit? (a b c d : Char) : Option Nat := do
  return (((← hexDigit? a) * 16 + (← hexDigit? b)) * 16 + (← hexDigit? c)) * 16 + (← hexDigit? d)

def escaped? : Char → Option Char
  | '"' => some '"'
  | '\\' => some '\\'
  | '/' => some '/'
  | 'b' => some '\x08'
  | 'f' => some '\x0c'
  | 'n' => some '\n'
  | 'r' => some '\r'
  | 't' => some '\t'
  | _ => none

def pieces? : (cs : List Char) → Option (Parsed Char (List Piece) cs.length)
  | [] => none
  | '"' :: rest => some (.used [] '"' rest)
  | '\\' :: 'u' :: a :: b :: c :: d :: rest =>
    match hexUnit? a b c d, pieces? rest with
    | some n, some p =>
      some (((((((p.map (.unit n :: ·)).past d).past c).past b).past a).past 'u').past '\\')
    | _, _ => none
  | '\\' :: e :: rest =>
    match escaped? e, pieces? rest with
    | some c, some p => some (((p.map (.char c :: ·)).past e).past '\\')
    | _, _ => none
  | c :: rest =>
    if c.toNat < 32 ∨ c = '\\' then none
    else (pieces? rest).map fun p => (p.map (.char c :: ·)).past c

def isDigit (c : Char) : Bool := '0' ≤ c && c ≤ '9'

def digits? (cs : List Char) : Option (List Char × List Char) :=
  match cs.takeWhile isDigit with
  | [] => none
  | ds => some (ds, cs.dropWhile isDigit)

/-- Digits of which a zero can only be first if it is alone. -/
def whole? : List Char → Option (List Char × List Char)
  | '0' :: rest => some (['0'], rest)
  | cs => digits? cs

def fraction? : List Char → Option (List Char × List Char)
  | '.' :: rest => digits? rest
  | cs => some ([], cs)

def exponentDigits? (negative : Bool) (cs : List Char) :
    Option (Option (Bool × List Char) × List Char) :=
  (digits? cs).map fun p => (some (negative, p.1), p.2)

def exponent? : List Char → Option (Option (Bool × List Char) × List Char)
  | c :: rest =>
    if c = 'e' ∨ c = 'E' then
      match rest with
      | '+' :: rest => exponentDigits? false rest
      | '-' :: rest => exponentDigits? true rest
      | rest => exponentDigits? false rest
    else some (none, c :: rest)
  | [] => some (none, [])

def unsigned? (negative : Bool) (cs : List Char) : Option (Numeral × List Char) := do
  let (whole, rest) ← whole? cs
  let (fraction, rest) ← fraction? rest
  let (exponent, rest) ← exponent? rest
  some (⟨negative, whole, fraction, exponent⟩, rest)

theorem length_digits? {cs ds rest : List Char} (h : digits? cs = some (ds, rest)) :
    rest.length < cs.length := by
  cases cs with
  | nil => simp [digits?] at h
  | cons c cs =>
    by_cases hd : isDigit c
    · simp only [digits?, List.takeWhile_cons, hd, if_true, List.dropWhile_cons,
        Option.some.injEq, Prod.mk.injEq] at h
      obtain ⟨-, rfl⟩ := h
      exact Nat.lt_succ_of_le (List.dropWhile_sublist _).length_le
    · simp [digits?, hd] at h

theorem length_whole? {cs ds rest : List Char} (h : whole? cs = some (ds, rest)) :
    rest.length < cs.length := by
  unfold whole? at h
  split at h
  · simp_all
  · exact length_digits? h

theorem length_fraction? {cs ds rest : List Char} (h : fraction? cs = some (ds, rest)) :
    rest.length ≤ cs.length := by
  unfold fraction? at h
  split at h
  · have := length_digits? h
    simp only [List.length_cons]
    omega
  · simp_all

theorem length_exponentDigits? {negative : Bool} {e : Option (Bool × List Char)}
    {cs rest : List Char} (h : exponentDigits? negative cs = some (e, rest)) :
    rest.length ≤ cs.length := by
  obtain ⟨p, hp, he⟩ := Option.map_eq_some_iff.mp h
  have := length_digits? hp
  simp_all
  omega

theorem length_exponent? {e : Option (Bool × List Char)} {cs rest : List Char}
    (h : exponent? cs = some (e, rest)) : rest.length ≤ cs.length := by
  unfold exponent? at h
  split at h
  · split at h
    · split at h <;> have := length_exponentDigits? h <;> simp_all <;> omega
    · simp_all
  · simp_all

theorem length_unsigned? {negative : Bool} {n : Numeral} {cs rest : List Char}
    (h : unsigned? negative cs = some (n, rest)) : rest.length < cs.length := by
  simp only [unsigned?, Option.bind_eq_bind, Option.bind_eq_some_iff, Prod.exists,
    Option.some.injEq, Prod.mk.injEq] at h
  obtain ⟨_, _, hw, _, _, hf, _, _, he, -, rfl⟩ := h
  have := length_whole? hw
  have := length_fraction? hf
  have := length_exponent? he
  omega

def unsignedNode? (negative : Bool) (cs : List Char) : Option (Parsed Char Node cs.length) :=
  match h : unsigned? negative cs with
  | some (n, rest) => some ⟨.number n, rest, length_unsigned? h⟩
  | none => none

/-- What begins with none of the marks of arrays and objects. -/
def scalar? : (cs : List Char) → Option (Parsed Char Node cs.length)
  | 'n' :: 'u' :: 'l' :: 'l' :: rest =>
    some ((((Parsed.used .null 'l' rest).past 'l').past 'u').past 'n')
  | 't' :: 'r' :: 'u' :: 'e' :: rest =>
    some ((((Parsed.used (.boolean true) 'e' rest).past 'u').past 'r').past 't')
  | 'f' :: 'a' :: 'l' :: 's' :: 'e' :: rest =>
    some (((((Parsed.used (.boolean false) 'e' rest).past 's').past 'l').past 'a').past 'f')
  | '"' :: rest => (pieces? rest).map fun p => (p.map .text).past '"'
  | '-' :: rest => (unsignedNode? true rest).map (·.past '-')
  | cs => unsignedNode? false cs

theorem length_of_skip {c : Char} {cs rest : List Char} (h : skip cs = c :: rest) :
    (c :: rest).length ≤ cs.length := h ▸ length_skip cs

def mark? (c : Char) (cs : List Char) : Option (Parsed Char Unit cs.length) :=
  match h : skip cs with
  | [] => none
  | d :: rest => if d = c then some ((Parsed.used () d rest).within (length_of_skip h)) else none

def memberName? (cs : List Char) : Option (Parsed Char (List Piece) cs.length) := do
  let quote ← mark? '"' cs
  let name ← pieces? quote.rest
  let colon ← mark? ':' name.rest
  some (((quote.follow name).follow colon).map fun _ => name.value)

mutual

def node? (cs : List Char) : Option (Parsed Char Node cs.length) :=
  match h : skip cs with
  | '[' :: rest =>
    have : rest.length < cs.length := length_of_skip h
    (items? rest).map fun p => (p.map .array).under this
  | '{' :: rest =>
    have : rest.length < cs.length := length_of_skip h
    (members? rest).map fun p => (p.map .object).under this
  | _ => (scalar? (skip cs)).map (·.within (length_skip cs))
termination_by (cs.length, 0)

def items? (cs : List Char) : Option (Parsed Char (List Node) cs.length) :=
  match mark? ']' cs with
  | some close => some (close.map fun _ => [])
  | none => itemList? cs
termination_by (cs.length, 2)

def itemList? (cs : List Char) : Option (Parsed Char (List Node) cs.length) :=
  match node? cs with
  | none => none
  | some item =>
    match mark? ',' item.rest, mark? ']' item.rest with
    | some comma, _ =>
      have : comma.rest.length < cs.length := (item.follow comma).shorter
      (itemList? comma.rest).map fun more => (more.map (item.value :: ·)).under this
    | none, some close => some ((item.follow close).map fun _ => [item.value])
    | none, none => none
termination_by (cs.length, 1)

def members? (cs : List Char) : Option (Parsed Char (List (List Piece × Node)) cs.length) :=
  match mark? '}' cs with
  | some close => some (close.map fun _ => [])
  | none => memberList? cs
termination_by (cs.length, 2)

def memberList? (cs : List Char) : Option (Parsed Char (List (List Piece × Node)) cs.length) :=
  match memberName? cs with
  | none => none
  | some name =>
    have _hn : name.rest.length < cs.length := name.shorter
    match node? name.rest with
    | none => none
    | some item =>
      match mark? ',' item.rest, mark? '}' item.rest with
      | some comma, _ =>
        have : comma.rest.length < cs.length := ((name.follow item).follow comma).shorter
        (memberList? comma.rest).map fun more =>
          (more.map ((name.value, item.value) :: ·)).under this
      | none, some close =>
        some (((name.follow item).follow close).map fun _ => [(name.value, item.value)])
      | none, none => none
termination_by (cs.length, 1)

end

def Node.read? (s : String) : Option Node :=
  match node? s.toList with
  | some p => if (skip p.rest).isEmpty then some p.value else none
  | none => none

end FormulaShell.Json

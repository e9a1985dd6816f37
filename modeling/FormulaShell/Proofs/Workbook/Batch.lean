import FormulaShell.Proofs.Formula.Relocation
import FormulaShell.Proofs.Workbook.Request

namespace FormulaShell

namespace Formula

section

variable {s : Scope} {names : Bool}

theorem Expr.allUnplaced_eq_map (items : List Expr) :
    Expr.allUnplaced items = items.map Expr.unplaced := by
  induction items with
  | nil => rfl
  | cons e items ih => rw [Expr.allUnplaced, ih, List.map_cons]

theorem checkAll_unplaced {items : List Expr} (h : ∀ e ∈ items, ∀ names,
    check s names e.unplaced = .ok () ↔ check s names e = .ok ()) :
    checkAll s names (Expr.allUnplaced items) = .ok () ↔ checkAll s names items = .ok () := by
  rw [checkAll_ok, checkAll_ok, Expr.allUnplaced_eq_map, List.forall_mem_map]
  exact forall₂_congr fun e he => h e he names

theorem check_unplaced (e : Expr) :
    check s names e.unplaced = .ok () ↔ check s names e = .ok () := by
  induction e generalizing names with
  | number | text | boolean => exact Iff.rfl
  | name n offset => rw [Expr.unplaced, check_name_ok, check_name_ok]
  | record fields ih =>
    rw [Expr.unplaced, check, check]
    induction fields with
    | nil => exact Iff.rfl
    | cons p fields ihf =>
      rw [Expr.fieldsUnplaced, checkFields, both_ok, checkFields, both_ok,
        ih p (by simp), ihf fun q hq => ih q (by simp [hq])]
  | table items ih | chain items ih => exact checkAll_unplaced fun e he _ => ih e he
  | unary op e ih | percent e ih | field e name ih => exact ih
  | binary op l r ihl ihr => rw [Expr.unplaced, check_binary_ok, check_binary_ok, ihl, ihr]
  | call f args offset ih =>
    rw [Expr.unplaced, check_call_ok, check_call_ok, Expr.allUnplaced_eq_map, List.length_map]
    refine exists_congr fun arity => and_congr_right fun _ => and_congr_right fun _ => ?_
    cases args with
    | nil => exact Iff.rfl
    | cons e args =>
      rw [List.map_cons, checkArgs_ok, checkArgs_ok, ih e (by simp), List.forall_mem_map]
      exact and_congr_right fun _ => forall₂_congr fun a ha => ih a (by simp [ha])

end

end Formula

open FormulaShell.Formula

namespace Workbook

variable {σ : Type} {w : Workbook σ} {batch batch' : List FunctionDef} {d : FunctionDef}

/-- No definition of the batch has an error. -/
def Accepts (w : Workbook σ) (batch : List FunctionDef) : Prop :=
  ∀ d ∈ batch, definitionErrors w batch d = []

theorem addDefinitions_eq_ok_iff {c : Workbook σ} :
    w.addDefinitions batch = .ok c ↔
      w.Accepts batch ∧ c = w.addFunctions (batch.filterMap resolve?) := by
  rw [Accepts, ← List.flatMap_eq_nil_iff, addDefinitions]
  cases batch.flatMap (definitionErrors w batch) with
  | nil => simp [eq_comm]
  | cons e es => simp

def definitionOf? (batch : List FunctionDef) (name : String) : Option FunctionDef :=
  batch.find? (·.name == name)

theorem mem_of_definitionOf? {name : String} (h : definitionOf? batch name = some d) :
    d ∈ batch ∧ d.name = name :=
  ⟨List.mem_of_find?_eq_some h, by simpa using List.find?_some h⟩

theorem definitionOf?_eq_some_iff (h : ∀ d ∈ batch, ∀ d' ∈ batch, d'.name = d.name → d' = d)
    {name : String} : definitionOf? batch name = some d ↔ d ∈ batch ∧ d.name = name := by
  refine ⟨mem_of_definitionOf?, ?_⟩
  rintro ⟨hd, rfl⟩
  cases hf : definitionOf? batch d.name with
  | none =>
    have hne := List.find?_eq_none.mp hf d hd
    simp at hne
  | some d' =>
    obtain ⟨hd', hn⟩ := mem_of_definitionOf? hf
    rw [h d hd d' hd' hn]

theorem definitionOf?_perm (hperm : batch.Perm batch')
    (h : ∀ d ∈ batch, ∀ d' ∈ batch, d'.name = d.name → d' = d) (name : String) :
    definitionOf? batch' name = definitionOf? batch name := by
  have h' : ∀ d ∈ batch', ∀ d' ∈ batch', d'.name = d.name → d' = d :=
    fun d hd d' hd' => h d (hperm.mem_iff.mpr hd) d' (hperm.mem_iff.mpr hd')
  ext d
  rw [definitionOf?_eq_some_iff h, definitionOf?_eq_some_iff h', hperm.mem_iff]

namespace Accepts

variable (h : w.Accepts batch)
include h

theorem eq_of_name_eq : ∀ d ∈ batch, ∀ d' ∈ batch, d'.name = d.name → d' = d :=
  fun d hd _ hd' => eq_of_definitionErrors (h d hd) hd hd'

theorem get?_functions (name : String) :
    (w.addFunctions (batch.filterMap resolve?)).functions.get? name =
      (definitionOf? batch name).elim (w.functions.get? name) resolve? := by
  obtain ⟨u, hu, hn, hg⟩ | ⟨hne, hg⟩ := get?_addFunctions (w := w) (batch.filterMap resolve?) name
  · obtain ⟨d, hd, hdu⟩ := List.mem_filterMap.mp hu
    have hname : d.name = name := (resolve?_eq hdu).1.symm.trans hn
    rw [hg, (definitionOf?_eq_some_iff h.eq_of_name_eq).mpr ⟨hd, hname⟩, Option.elim, hdu]
  · cases hf : definitionOf? batch name with
    | none => exact hg
    | some d =>
      obtain ⟨hd, hname⟩ := mem_of_definitionOf? hf
      obtain ⟨-, -, u, hdu, hun, -⟩ := resolve?_of_definitionErrors (h d hd)
      exact absurd (hun.trans hname) (hne u (List.mem_filterMap.mpr ⟨d, hd, hdu⟩))

theorem perm (hperm : batch.Perm batch') : w.Accepts batch' := by
  intro d hd
  have hscope : bodyScope w batch' d = bodyScope w batch d := by
    unfold bodyScope
    congr 1
    funext name
    have hf := definitionOf?_perm hperm h.eq_of_name_eq name
    rw [definitionOf?, definitionOf?] at hf
    rw [hf]
  have hcount := (hperm.filter (·.name == d.name)).length_eq
  have herrors : definitionErrors w batch' d = definitionErrors w batch d := by
    rw [definitionErrors, definitionErrors, hscope, hcount]
  rw [herrors]
  exact h d (hperm.mem_iff.mpr hd)

end Accepts

/-- A batch is accepted exactly if it is in another order, and then every name stands for the same
function and all else is the same. -/
theorem addDefinitions_perm (w : Workbook σ) (hperm : batch.Perm batch') :
    ((∃ c, w.addDefinitions batch = .ok c) ↔ ∃ c, w.addDefinitions batch' = .ok c) ∧
      ∀ c c', w.addDefinitions batch = .ok c → w.addDefinitions batch' = .ok c' →
        (∀ name, c'.functions.get? name = c.functions.get? name) ∧
          c' = { c with functions := c'.functions } := by
  simp only [addDefinitions_eq_ok_iff]
  refine ⟨⟨?_, ?_⟩, ?_⟩
  · rintro ⟨_, h, -⟩
    exact ⟨_, h.perm hperm, rfl⟩
  · rintro ⟨_, h, -⟩
    exact ⟨_, h.perm hperm.symm, rfl⟩
  · rintro _ _ ⟨h, rfl⟩ ⟨h', rfl⟩
    refine ⟨fun name => ?_, rfl⟩
    rw [h.get?_functions, h'.get?_functions, definitionOf?_perm hperm h.eq_of_name_eq]

def parityTest (name other : String) (atZero : Bool) : FunctionDef :=
  ⟨name, 0, [⟨"n", ⟨"Number", 0⟩⟩], ⟨"Boolean", 0⟩,
    .call "If" [.binary .eq (.name "n" 0) (.number 0.0), .boolean atZero,
      .call other [.binary .sub (.name "n" 0) (.number 1.0)] 0] 0⟩

def evenTest : FunctionDef := parityTest "Even" "Odd" true

def oddTest : FunctionDef := parityTest "Odd" "Even" false

theorem parity_batch_either_order : ∃ c c' : Workbook Unit,
    empty.addDefinitions [evenTest, oddTest] = .ok c ∧
    empty.addDefinitions [oddTest, evenTest] = .ok c' ∧
    (c.functions.get? "Odd").isSome ∧
    c'.functions.get? "Odd" = c.functions.get? "Odd" ∧
    c'.functions.get? "Even" = c.functions.get? "Even" := by
  have hperm : [evenTest, oddTest].Perm [oddTest, evenTest] := .swap oddTest evenTest []
  obtain ⟨hiff, hsame⟩ := addDefinitions_perm (empty : Workbook Unit) hperm
  obtain ⟨c, hc⟩ := exists_ok_of_isOk
    (x := (empty : Workbook Unit).addDefinitions [evenTest, oddTest]) (by decide +kernel)
  obtain ⟨c', hc'⟩ := hiff.mp ⟨c, hc⟩
  obtain ⟨hget, -⟩ := hsame c c' hc hc'
  have hodd : (((empty : Workbook Unit).addDefinitions [evenTest, oddTest]).toOption.bind
      (·.functions.get? "Odd")).isSome := by decide +kernel
  rw [hc] at hodd
  exact ⟨c, c', hc, hc', hodd, hget "Odd", hget "Even"⟩

theorem typeErrors_unplaced (t : TypeName) : typeErrors t.unplaced = [] ↔ typeErrors t = [] := by
  rw [typeErrors, typeErrors, TypeName.unplaced]
  cases Kind.ofTypeName? t.name with
  | none => simp
  | some k => simp

theorem paramErrors_unplaced {function : String} (seen : List String) (ps : List Param) :
    paramErrors function seen (ps.map Param.unplaced) = [] ↔ paramErrors function seen ps = [] := by
  induction ps generalizing seen with
  | nil => exact Iff.rfl
  | cons p ps ih =>
    rw [List.map_cons, paramErrors, paramErrors]
    simp only [List.append_eq_nil_iff, Param.unplaced, typeErrors_unplaced, ih]
    simp

theorem definitionOf?_unplaced (batch : List FunctionDef) (name : String) :
    definitionOf? (batch.map FunctionDef.unplaced) name =
      (definitionOf? batch name).map FunctionDef.unplaced := by
  rw [definitionOf?, List.find?_map]
  rfl

theorem bodyScope_unplaced (w : Workbook σ) (batch : List FunctionDef) (d : FunctionDef) :
    bodyScope w (batch.map FunctionDef.unplaced) d.unplaced = bodyScope w batch d := by
  have hdefined (name : String) := definitionOf?_unplaced batch name
  simp only [definitionOf?] at hdefined
  simp only [bodyScope, hdefined]
  congr 1
  · funext name
    simp [FunctionDef.unplaced, Param.unplaced, Function.comp_def]
  · funext name
    cases batch.find? (·.name == name) with
    | none => rfl
    | some d => simp [FunctionDef.unplaced]

theorem definitionErrors_eq_nil_iff : definitionErrors w batch d = [] ↔
    w.arity? d.name = none ∧ (batch.filter (·.name == d.name)).length ≤ 1 ∧
      paramErrors d.name [] d.params = [] ∧ typeErrors d.result = [] ∧
        check (bodyScope w batch d) true d.body = .ok () := by
  by_cases ha : w.arity? d.name = none
  · cases hc : check (bodyScope w batch d) true d.body <;> simp [definitionErrors, ha, hc]
  · simp [definitionErrors, ha, Option.isSome_iff_ne_none]

theorem definitionErrors_unplaced (w : Workbook σ) (batch : List FunctionDef) (d : FunctionDef) :
    definitionErrors w (batch.map FunctionDef.unplaced) d.unplaced = [] ↔
      definitionErrors w batch d = [] := by
  have hcount : ((batch.map FunctionDef.unplaced).filter (·.name == d.name)).length =
      (batch.filter (·.name == d.name)).length := by
    rw [List.filter_map, List.length_map]
    rfl
  rw [definitionErrors_eq_nil_iff, bodyScope_unplaced, definitionErrors_eq_nil_iff,
    ← check_unplaced d.body, ← paramErrors_unplaced [] d.params, ← typeErrors_unplaced d.result,
    ← hcount]
  rfl

theorem accepts_unplaced : w.Accepts (batch.map FunctionDef.unplaced) ↔ w.Accepts batch := by
  rw [Accepts, List.forall_mem_map]
  exact forall₂_congr fun d _ => definitionErrors_unplaced w batch d

/-- The function with all positions in its body forgotten. -/
def unplacedFunction (u : UserFunction) : UserFunction := { u with body := u.body.unplaced }

theorem resolve?_unplaced (d : FunctionDef) :
    resolve? d.unplaced = (resolve? d).map unplacedFunction := by
  have hparams : (d.params.map Param.unplaced).mapM
      (fun p => (Kind.ofTypeName? p.type.name).map fun k => (p.name, k)) =
      d.params.mapM fun p => (Kind.ofTypeName? p.type.name).map fun k => (p.name, k) := by
    rw [List.mapM_map]
    rfl
  rw [resolve?, FunctionDef.unplaced, hparams, resolve?]
  simp only [TypeName.unplaced]
  rcases d.params.mapM _ with _ | ps
  · rfl
  · cases Kind.ofTypeName? d.result.name with
    | none => rfl
    | some k => rfl

theorem defineFunctions_eq_ok_iff {source : String} {c : Workbook σ}
    (hread : readDefinitions source = .ok batch) : w.defineFunctions source = .ok c ↔
      w.Accepts batch ∧ c = w.addFunctions (batch.filterMap resolve?) := by
  rw [defineFunctions, hread]
  exact addDefinitions_eq_ok_iff

theorem Accepts.get?_functions_unplaced (h : w.Accepts batch) (name : String) :
    ((w.addFunctions (batch.filterMap resolve?)).functions.get? name).map unplacedFunction =
      (definitionOf? (batch.map FunctionDef.unplaced) name).elim
        ((w.functions.get? name).map unplacedFunction) resolve? := by
  rw [h.get?_functions, definitionOf?_unplaced]
  cases definitionOf? batch name with
  | none => rfl
  | some d => exact (resolve?_unplaced d).symm

/-- Texts of the same definitions in another order, wherever these stand in the texts, are accepted
alike and define the same functions. -/
theorem defineFunctions_rearranged {source source' : String}
    (hread : readDefinitions source = .ok batch) (hread' : readDefinitions source' = .ok batch')
    (hperm : (batch.map FunctionDef.unplaced).Perm (batch'.map FunctionDef.unplaced)) :
    ((∃ c, w.defineFunctions source = .ok c) ↔ ∃ c, w.defineFunctions source' = .ok c) ∧
      ∀ c c', w.defineFunctions source = .ok c → w.defineFunctions source' = .ok c' →
        ∀ name, (c'.functions.get? name).map unplacedFunction =
          (c.functions.get? name).map unplacedFunction := by
  simp only [defineFunctions_eq_ok_iff hread, defineFunctions_eq_ok_iff hread']
  refine ⟨⟨?_, ?_⟩, ?_⟩
  · rintro ⟨_, h, -⟩
    exact ⟨_, accepts_unplaced.mp ((accepts_unplaced.mpr h).perm hperm), rfl⟩
  · rintro ⟨_, h, -⟩
    exact ⟨_, accepts_unplaced.mp ((accepts_unplaced.mpr h).perm hperm.symm), rfl⟩
  · rintro _ _ ⟨h, rfl⟩ ⟨h', rfl⟩ name
    rw [h.get?_functions_unplaced, h'.get?_functions_unplaced,
      definitionOf?_perm hperm (accepts_unplaced.mpr h).eq_of_name_eq]

end Workbook

end FormulaShell

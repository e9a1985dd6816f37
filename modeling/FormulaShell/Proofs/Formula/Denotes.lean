import FormulaShell.Proofs.Formula.Locality
import FormulaShell.Proofs.Value.Equality
import Mathlib.Data.List.Forall2

namespace FormulaShell

namespace Formula

/-- Nothing interrupts an evaluation, and no other function goes by the name of `Blank`. -/
structure Plain {σ : Type} (env : Environment σ) : Prop where
  poll : env.poll = .never
  functions : env.functions.get? "Blank" = none
  hosts : env.hosts.get? "Blank" = none

structure Denotes (e : Expr) (v : Value) : Prop where
  checks : ∀ s : Scope, s.arity? "Blank" = some (.exactly 0) → ∀ names, check s names e = .ok ()
  yields : ∀ {σ : Type} (env : Environment σ) (enter : Enter σ) (frames : Frames), Plain env →
    ∃ w, Yields (eval env enter frames e) w ∧ (w == v) = true

theorem denotes_blank (offset : Nat) : Denotes (.call "Blank" [] offset) .blank := by
  constructor
  · intro s hs names
    rw [check, hs]
    rfl
  · intro σ env enter frames h
    refine ⟨.blank, ?_, Value.beq_blank⟩
    rw [eval_call, callee, h.functions, h.hosts]
    exact (yields_visit h.poll).bind ((yields_pure []).bind (yields_pure _))

theorem denotes_boolean (b : Bool) : Denotes (.boolean b) (.boolean b) := by
  constructor
  · intro s _ names
    rfl
  · intro σ env enter frames h
    refine ⟨.boolean b, ?_, by rw [Value.beq_boolean, beq_self_eq_true]⟩
    rw [eval]
    exact (yields_visit h.poll).bind (yields_pure _)

theorem denotes_text (s : String) : Denotes (.text s) (.text s) := by
  constructor
  · intro _ _ names
    rfl
  · intro σ env enter frames h
    refine ⟨.text s, ?_, by rw [Value.beq_text, beq_self_eq_true]⟩
    rw [eval]
    exact (yields_visit h.poll).bind (yields_pure _)

theorem denotes_number {x y : Float} (hxy : (y == x) = true) :
    Denotes (.number y) (.number x) := by
  constructor
  · intro _ _ names
    rfl
  · intro σ env enter frames h
    refine ⟨.number y, ?_, by rw [Value.beq_number, hxy]⟩
    rw [eval]
    exact (yields_visit h.poll).bind (yields_pure _)

theorem denotes_neg {x y : Float} (hxy : (-y == x) = true) :
    Denotes (.unary .neg (.number y)) (.number x) := by
  constructor
  · intro _ _ names
    rfl
  · intro σ env enter frames h
    refine ⟨.number (-y), ?_, by rw [Value.beq_number, hxy]⟩
    have hy : Yields (eval env enter frames (.number y)) (.number y) := by
      rw [eval]
      exact (yields_visit h.poll).bind (yields_pure _)
    rw [eval]
    exact (yields_visit h.poll).bind (hy.bind (yields_pure _))

section

variable {σ : Type} {env : Environment σ} (enter : Enter σ) (frames : Frames)

theorem yields_evalAll {es : List Expr} {vs : List Value} (h : List.Forall₂ Denotes es vs)
    (henv : Plain env) :
    ∃ ws, Yields (evalAll env enter frames es) ws ∧
      Value.beqRows (Table.ofValues ws) (Table.ofValues vs) = true := by
  induction h with
  | nil => exact ⟨[], yields_pure [], by rw [Table.ofValues, List.map_nil, Value.beqRows]⟩
  | @cons e v es vs he _ ih =>
    obtain ⟨w, hw, hwv⟩ := he.yields env enter frames henv
    obtain ⟨ws, hws, hwvs⟩ := ih
    refine ⟨w :: ws, ?_, Value.beqRows_cons hwv hwvs⟩
    rw [evalAll]
    exact hw.bind (hws.bind (yields_pure _))

theorem put_of_not_mem {α : Type} {n : String} {v : α} {es : List (String × α)}
    (h : n ∉ es.map Prod.fst) : Fields.put n v es = es ++ [(n, v)] := by
  induction es with
  | nil => rfl
  | cons p es ih =>
    rw [List.map_cons, List.mem_cons, not_or] at h
    rw [Fields.put, if_neg (Ne.symm h.1), ih h.2, List.cons_append]

theorem yields_evalFields {fs : List (String × Expr)} {es : List (String × Value)}
    (h : List.Forall₂ (fun f p => f.1 = p.1 ∧ Denotes f.2 p.2) fs es) (henv : Plain env)
    (done : List (String × Value)) (hn : (done.map Prod.fst ++ es.map Prod.fst).Nodup) :
    ∃ ws, Yields (evalFields env enter frames ⟨done⟩ fs) ⟨done ++ ws⟩ ∧
      Value.beqEntries ws es = true := by
  induction h generalizing done with
  | nil =>
    refine ⟨[], ?_, by rw [Value.beqEntries]⟩
    rw [List.append_nil]
    exact yields_pure _
  | @cons f p fs es hf _ ih =>
    obtain ⟨n, e⟩ := f
    obtain ⟨m, v⟩ := p
    obtain ⟨rfl, he⟩ := hf
    obtain ⟨w, hw, hwv⟩ := he.yields env enter frames henv
    have hnew : n ∉ done.map Prod.fst := by
      intro hm
      exact (List.nodup_append.mp hn).2.2 n hm n (by simp) rfl
    have hput : Fields.insert ⟨done⟩ n w = ⟨done ++ [(n, w)]⟩ := by
      rw [Fields.insert, put_of_not_mem hnew]
    obtain ⟨ws, hws, hwvs⟩ := ih (done ++ [(n, w)]) (by simpa using hn)
    refine ⟨(n, w) :: ws, ?_, Value.beqEntries_cons hwv hwvs⟩
    rw [evalFields]
    refine hw.bind ?_
    rw [hput]
    simpa using hws

end

theorem denotes_table {es : List Expr} {vs : List Value} (h : List.Forall₂ Denotes es vs) :
    Denotes (.table es) (.table (Table.ofValues vs)) := by
  constructor
  · intro s hs names
    rw [check]
    induction h with
    | nil => rfl
    | cons he _ ih =>
      rw [checkAll, he.checks s hs names]
      exact ih
  · intro σ env enter frames henv
    obtain ⟨ws, hws, hwvs⟩ := yields_evalAll enter frames h henv
    refine ⟨.table (Table.ofValues ws), ?_, by rw [Value.beq_table, hwvs]⟩
    rw [eval]
    exact (yields_visit henv.poll).bind (hws.bind (yields_pure _))

theorem denotes_record {fs : List (String × Expr)} {es : List (String × Value)}
    (h : List.Forall₂ (fun f p => f.1 = p.1 ∧ Denotes f.2 p.2) fs es)
    (hn : (es.map Prod.fst).Nodup) : Denotes (.record fs) (.record ⟨es⟩) := by
  constructor
  · intro s hs names
    rw [check]
    clear hn
    induction h with
    | nil => rfl
    | @cons f p fs es hf _ ih =>
      obtain ⟨n, e⟩ := f
      rw [checkFields, hf.2.checks s hs names]
      exact ih
  · intro σ env enter frames henv
    obtain ⟨ws, hws, hwvs⟩ := yields_evalFields enter frames h henv [] hn
    refine ⟨.record ⟨ws⟩, ?_, by rw [Value.beq_record, hwvs]⟩
    rw [eval]
    exact (yields_visit henv.poll).bind (hws.bind (yields_pure _))

end Formula

end FormulaShell

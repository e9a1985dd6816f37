import FormulaShell.Proofs.Formula.Pieces
import FormulaShell.Proofs.Number.Text
import FormulaShell.Proofs.Value.Equality
import FormulaShell.Proofs.Value.Rearrangement
import Mathlib.Data.List.Forall2

namespace FormulaShell.Value

open FormulaShell.Formula FormulaShell.Text

/-- A value that literals and tables of records can give, with names for its fields that have the
property. -/
inductive Built (P : String → Prop) : Value → Prop where
  | blank : Built P .blank
  | boolean (b : Bool) : Built P (.boolean b)
  | number {x : Float} : Number.isFinite x → Built P (.number x)
  | text (s : String) : Built P (.text s)
  | record {r : Record} : (∀ p ∈ r.entries, P p.1) → (∀ p ∈ r.entries, Built P p.2) →
      Built P (.record r)
  | table {t : Table} : (∀ r ∈ t, ∀ p ∈ r.entries, P p.1) →
      (∀ r ∈ t, ∀ p ∈ r.entries, Built P p.2) → Built P (.table t)

/-- A name that cannot be taken for a name with a value after it, nor for the end of a record. -/
def Clear (n : String) : Prop := ':' ∉ n.toList ∧ n.toList.head? ≠ some '\x7d'

instance : DecidablePred Clear := fun _ => inferInstanceAs (Decidable (_ ∧ _))

/-- Equality up to the order of fields. -/
def Alike (v w : Value) : Prop := ∃ u, Rearranged v u ∧ (u == w) = true

section

variable {es fs : List (String × Value)} {t u : Table}

theorem Alike.of_beq {v w : Value} (h : (v == w) = true) : Alike v w := ⟨v, .refl v, h⟩

theorem exists_entries (h : List.Forall₂ (fun p q => p.1 = q.1 ∧ Alike p.2 q.2) es fs) :
    ∃ us, (∀ before, Rearranged (.record ⟨before ++ es⟩) (.record ⟨before ++ us⟩)) ∧
      beqEntries us fs = true := by
  induction h with
  | nil => exact ⟨[], fun before => .refl _, by rw [beqEntries]⟩
  | @cons p q es fs hpq _ ih =>
    obtain ⟨n, v⟩ := p
    obtain ⟨_, w⟩ := q
    obtain ⟨rfl, u, hu, huw⟩ := hpq
    obtain ⟨us, hus, husf⟩ := ih
    refine ⟨(n, u) :: us, fun before => ?_, ?_⟩
    · have hrest := hus (before ++ [(n, u)])
      rw [List.append_assoc, List.append_assoc] at hrest
      exact .trans (.entry before es n hu) hrest
    · exact beqEntries_cons huw husf

theorem exists_rows (h : List.Forall₂ (fun r s => Alike (.record r) (.record s)) t u) :
    ∃ us, (∀ before, Rearranged (.table (before ++ t)) (.table (before ++ us))) ∧
      beqRows us u = true := by
  induction h with
  | nil => exact ⟨[], fun before => .refl _, by rw [beqRows]⟩
  | @cons r s t u hrs _ ih =>
    obtain ⟨_, hq, hqs⟩ := hrs
    obtain ⟨q, rfl, -⟩ := hq.of_record
    rw [beq_record] at hqs
    obtain ⟨us, hus, husu⟩ := ih
    refine ⟨q :: us, fun before => ?_, ?_⟩
    · have hrest := hus (before ++ [q])
      rw [List.append_assoc, List.append_assoc] at hrest
      exact .trans (.row before t hq) hrest
    · rw [beqRows, beqFields, hqs, husu, Bool.true_and]

theorem Alike.record (h : List.Forall₂ (fun p q => p.1 = q.1 ∧ Alike p.2 q.2) es fs) :
    Alike (.record ⟨es⟩) (.record ⟨fs⟩) := by
  obtain ⟨us, hus, hbeq⟩ := exists_entries h
  exact ⟨.record ⟨us⟩, hus [], (beq_record us fs).trans hbeq⟩

theorem Alike.table (h : List.Forall₂ (fun r s => Alike (.record r) (.record s)) t u) :
    Alike (.table t) (.table u) := by
  obtain ⟨us, hus, hbeq⟩ := exists_rows h
  exact ⟨.table us, hus [], (beq_table us u).trans hbeq⟩

theorem Alike.record_of_perm {es' fs' : List (String × Value)} (he : es'.Perm es)
    (hf : fs'.Perm fs) (h : List.Forall₂ (fun p q => p.1 = q.1 ∧ Alike p.2 q.2) es' fs') :
    Alike (.record ⟨es⟩) (.record ⟨fs⟩) := by
  have hcomp : Relation.Comp (List.Forall₂ fun p q : String × Value => p.1 = q.1 ∧ Alike p.2 q.2)
      List.Perm es' fs := ⟨fs', h, hf⟩
  rw [List.forall₂_comp_perm_eq_perm_comp_forall₂] at hcomp
  obtain ⟨gs, hgs, hgf⟩ := hcomp
  obtain ⟨u, hu, huf⟩ := Alike.record hgf
  exact ⟨u, .trans (.order (he.symm.trans hgs)) hu, huf⟩

theorem Alike.ofValues {vs ws : List Value} (h : List.Forall₂ Alike vs ws) :
    Alike (.table (Table.ofValues vs)) (.table (Table.ofValues ws)) := by
  refine .table ?_
  rw [Table.ofValues, Table.ofValues, List.forall₂_map_left_iff, List.forall₂_map_right_iff]
  exact h.imp fun v w hvw => .record (.cons ⟨rfl, hvw⟩ .nil)

end

def closers : List Char := [',', ']', '\x7d', ')']

/-- What may come after the text of a part. -/
def Closed (rest : List Char) : Prop := ∀ c ∈ rest.head?, c ∈ closers

theorem closed_nil : Closed [] := by
  intro c hc
  cases hc

theorem closed_cons {c : Char} {rest : List Char} (h : c ∈ closers) : Closed (c :: rest) := by
  rintro _ ⟨⟩
  exact h

theorem append_inj_of_closed {xs ys r s : List Char} (hx : ∀ c ∈ xs, c ∉ closers)
    (hy : ∀ c ∈ ys, c ∉ closers) (hr : Closed r) (hs : Closed s)
    (h : xs ++ r = ys ++ s) : xs = ys ∧ r = s :=
  append_inj_of_head (p := fun c => decide (c ∉ closers))
    (fun c hc => decide_eq_true (hx c hc)) (fun c hc => decide_eq_false (not_not.mpr (hr c hc)))
    (fun c hc => decide_eq_true (hy c hc)) (fun c hc => decide_eq_false (not_not.mpr (hs c hc))) h

section

variable {α : Type} {text : α → List Char} {R : α → α → Prop} {x y : α} {xs ys : List α}
  {r s : List Char} {close : Char}

/-- Whatever closes them, the texts are the same only for what is related, and then the same is
left. -/
def Told (text : α → List Char) (R : α → α → Prop) (x y : α) : Prop :=
  ∀ r s, Closed r → Closed s → text x ++ r = text y ++ s → R x y ∧ r = s

def further (text : α → List Char) (xs : List α) (close : Char) (r : List Char) : List Char :=
  xs.flatMap (fun x => ',' :: text x) ++ close :: r

theorem intercalate_cons_append (text : α → List Char) (x : α) (xs : List α) (r : List Char) :
    [','].intercalate ((x :: xs).map text) ++ close :: r = text x ++ further text xs close r := by
  induction xs generalizing x with
  | nil => simp [further]
  | cons y ys ih =>
    rw [List.map_cons, List.map_cons, List.intercalate_cons_cons, List.append_assoc,
      List.append_assoc, ← List.map_cons, ih, further, further, List.flatMap_cons]
    simp

theorem closed_further (hclose : close ∈ [']', '\x7d', ')']) :
    Closed (further text xs close r) := by
  cases xs with
  | nil => exact closed_cons (List.mem_cons_of_mem _ hclose)
  | cons x xs => exact closed_cons (by decide)

theorem told_further (hclose : close ∈ [']', '\x7d', ')'])
    (h : ∀ x ∈ xs, ∀ y ∈ ys, Told text R x y)
    (heq : further text xs close r = further text ys close s) :
    List.Forall₂ R xs ys ∧ r = s := by
  have hcomma (u rest : List Char) : close :: u ≠ ',' :: rest := by
    rintro ⟨⟩
    revert hclose
    decide
  induction xs generalizing ys with
  | nil =>
    cases ys with
    | nil => exact ⟨.nil, (List.cons.inj heq).2⟩
    | cons y ys => exact absurd heq (hcomma _ _)
  | cons x xs ih =>
    cases ys with
    | nil => exact absurd heq.symm (hcomma _ _)
    | cons y ys =>
      have hparts : text x ++ further text xs close r = text y ++ further text ys close s := by
        simpa [further] using heq
      obtain ⟨hxy, hrest⟩ := h x (by simp) y (by simp) _ _ (closed_further hclose)
        (closed_further hclose) hparts
      obtain ⟨hxys, hrs⟩ := ih (fun x hx y hy => h x (by simp [hx]) y (by simp [hy])) hrest
      exact ⟨.cons hxy hxys, hrs⟩

theorem told_list (hclose : close ∈ [']', '\x7d', ')'])
    (hx : ∀ x ∈ xs, ∃ c rest, text x = c :: rest ∧ c ≠ close)
    (hy : ∀ y ∈ ys, ∃ c rest, text y = c :: rest ∧ c ≠ close)
    (h : ∀ x ∈ xs, ∀ y ∈ ys, Told text R x y)
    (heq : [','].intercalate (xs.map text) ++ close :: r =
      [','].intercalate (ys.map text) ++ close :: s) :
    List.Forall₂ R xs ys ∧ r = s := by
  cases xs with
  | nil =>
    cases ys with
    | nil => exact ⟨.nil, (List.cons.inj heq).2⟩
    | cons y ys =>
      obtain ⟨c, rest, hc, hne⟩ := hy y (by simp)
      rw [intercalate_cons_append, hc] at heq
      exact absurd (List.cons.inj heq).1.symm hne
  | cons x xs =>
    cases ys with
    | nil =>
      obtain ⟨c, rest, hc, hne⟩ := hx x (by simp)
      rw [intercalate_cons_append, hc] at heq
      exact absurd (List.cons.inj heq).1 hne
    | cons y ys =>
      rw [intercalate_cons_append, intercalate_cons_append] at heq
      obtain ⟨hxy, hrest⟩ := h x (by simp) y (by simp) _ _ (closed_further hclose)
        (closed_further hclose) heq
      obtain ⟨hxys, hrs⟩ :=
        told_further hclose (fun x hx y hy => h x (by simp [hx]) y (by simp [hy])) hrest
      exact ⟨.cons hxy hxys, hrs⟩

end

section

variable {v w : Value} {r s : List Char}

def chars (v : Value) : List Char := v.canonical.toList

def recordChars (r : Record) : List Char := (canonicalRecord r).toList

def kindOfMark? (c : Char) : Option Kind :=
  if c = '-' ∨ isAsciiDigit c then some .number
  else match c with
    | 'B' => some .blank
    | 't' | 'f' => some .boolean
    | '"' => some .text
    | '\x7b' => some .record
    | '[' | 'T' => some .table
    | _ => none

def entryChars (p : String × Value) : List Char := p.1.toList ++ ':' :: p.2.chars

def byName (es : List (String × Value)) : List (String × Value) :=
  es.mergeSort fun a b => decide (a.1 ≤ b.1)

theorem recordChars_eq (es : List (String × Value)) :
    recordChars ⟨es⟩ =
      '\x7b' :: ([','].intercalate ((byName es).map entryChars) ++ ['\x7d']) := by
  have hsorted : sortedEntries (canonicalEntries es) =
      (byName es).map fun p => (p.1, p.2.canonical) := by
    rw [canonicalEntries_eq, sortedEntries, byName]
    exact (List.map_mergeSort (f := fun p : String × Value => (p.1, p.2.canonical))
      fun _ _ _ _ => rfl).symm
  have htexts : (byName es).map (String.toList ∘ (fun e : String × String => e.1 ++ ":" ++ e.2) ∘
      fun p => (p.1, p.2.canonical)) = (byName es).map entryChars := by
    refine List.map_congr_left fun p _ => ?_
    simp [entryChars, chars]
  rw [recordChars, canonicalRecord, hsorted, List.map_map, toList_inBraces, List.map_map, htexts]
  rfl

theorem canonical_of_sorted {es : List (String × Value)}
    (h : es.Pairwise fun a b => decide (a.1 ≤ b.1) = true) :
    (record ⟨es⟩).canonical =
      String.ofList ('\x7b' :: ([','].intercalate (es.map entryChars) ++ ['\x7d'])) := by
  have hsorted : byName es = es := List.mergeSort_of_pairwise h
  rw [canonical, ← String.ofList_toList (s := canonicalRecord ⟨es⟩)]
  exact congrArg String.ofList ((recordChars_eq es).trans (by rw [hsorted]))

theorem chars_record (r : Record) : (record r).chars = recordChars r := by
  rw [chars, canonical, recordChars]

theorem chars_ofValues (vs : List Value) :
    (table (Table.ofValues vs)).chars =
      '[' :: ([','].intercalate (vs.map chars) ++ [']']) := by
  rw [chars, canonical_ofValues, toList_inBrackets, List.map_map]
  rfl

theorem chars_rows {t : Table} (h : ¬ Table.isColumn t) :
    (table t).chars = "Table(".toList ++
      ([','].intercalate (t.map recordChars) ++ [')']) := by
  rw [chars, canonical_rows h, String.toList_append, String.toList_append,
    String.toList_intercalate, List.map_map, List.append_assoc]
  rfl

theorem exists_mark {P : String → Prop} (h : Built P v) :
    ∃ c rest, v.chars = c :: rest ∧ kindOfMark? c = some v.kind := by
  cases h with
  | blank => exact ⟨_, _, by rw [chars, canonical]; rfl, rfl⟩
  | boolean b =>
    cases b with
    | false => exact ⟨_, _, by rw [chars, canonical]; rfl, rfl⟩
    | true => exact ⟨_, _, by rw [chars, canonical]; rfl, rfl⟩
  | number hx =>
    obtain ⟨negative, n, -, htext, -, -⟩ := Number.exists_text hx
    obtain ⟨d, ds, hn, hd⟩ := n.exists_chars
    rw [chars, canonical, htext, hn]
    cases negative with
    | true => exact ⟨_, _, rfl, rfl⟩
    | false => exact ⟨d, ds, rfl, if_pos (.inr hd)⟩
  | text s =>
    rw [chars, canonical, toList_quoted]
    exact ⟨_, _, rfl, rfl⟩
  | @record r _ _ =>
    obtain ⟨es⟩ := r
    exact ⟨_, _, by rw [chars_record, recordChars_eq], rfl⟩
  | @table t _ _ =>
    by_cases ht : Table.isColumn t
    · obtain ⟨vs, rfl⟩ := Table.isColumn_iff.mp ht
      exact ⟨_, _, chars_ofValues vs, rfl⟩
    · exact ⟨_, _, chars_rows ht, rfl⟩

theorem kind_eq_of_chars {P : String → Prop} (hv : Built P v) (hw : Built P w)
    (h : v.chars ++ r = w.chars ++ s) : v.kind = w.kind := by
  obtain ⟨c, rest, hc, hcv⟩ := exists_mark hv
  obtain ⟨d, rest', hd, hdw⟩ := exists_mark hw
  rw [hc, hd] at h
  obtain rfl : c = d := (List.cons.inj h).1
  exact Option.some.inj (hcv.symm.trans hdw)

theorem not_mem_closers_of_mem_number {x : Float} (hx : Number.isFinite x = true) :
    ∀ c ∈ (Number.text x).toList, c ∉ closers := by
  obtain ⟨negative, n, -, htext, -, -⟩ := Number.exists_text hx
  have hmarks : ∀ d ∈ closers, isAsciiDigit d = false ∧ d ≠ '.' ∧ d ≠ '-' := by
    simp [closers, isAsciiDigit]
  intro c hc hmem
  obtain ⟨hdigit, hpoint, hminus⟩ := hmarks c hmem
  rw [htext] at hc
  obtain hsign | hchars := List.mem_append.mp hc
  · cases negative
    · cases hsign
    · exact hminus (List.mem_singleton.mp hsign)
  · obtain h | h := n.isAsciiDigit_or_eq_of_mem_chars hchars
    · exact absurd h (by simp [hdigit])
    · exact hpoint h

theorem told_number {x y : Float} (hx : Number.isFinite x = true) (hy : Number.isFinite y = true) :
    Told chars Alike (.number x) (.number y) := by
  intro r s hr hs h
  simp only [chars, canonical] at h
  obtain ⟨htext, hrest⟩ :=
    append_inj_of_closed (not_mem_closers_of_mem_number hx) (not_mem_closers_of_mem_number hy)
      hr hs h
  refine ⟨.of_beq ?_, hrest⟩
  rw [beq_number]
  exact Number.beq_of_text_eq hx hy (String.toList_inj.mp htext)

theorem told_boolean (b c : Bool) : Told chars Alike (.boolean b) (.boolean c) := by
  intro r s _ _ h
  simp only [chars, canonical] at h
  obtain rfl : b = c := by
    cases b <;> cases c
    · rfl
    · cases h
    · cases h
    · rfl
  exact ⟨.of_beq ((beq_boolean b b).trans (beq_self_eq_true b)), List.append_cancel_left h⟩

theorem told_text (a b : String) : Told chars Alike (.text a) (.text b) := by
  intro r s hr hs h
  have hbody (c : String) {rest : List Char} (hc : Closed rest) :
      quotedBody? '"' (doubled '"' c.toList ++ '"' :: rest) =
        some (c.toList, (doubled '"' c.toList).length + 1) :=
    quotedBody?_doubled _ _ fun hq => absurd (hc _ hq) (by decide)
  simp only [chars, canonical, toList_quoted, enclosed, List.cons_append, List.append_assoc,
    List.cons.injEq, true_and, List.nil_append] at h
  have hab := (hbody a hr).symm.trans ((congrArg _ h).trans (hbody b hs))
  simp only [Option.some.injEq, Prod.mk.injEq] at hab
  obtain rfl := String.toList_inj.mp hab.1
  refine ⟨.of_beq ?_, (List.cons.inj (List.append_cancel_left h)).2⟩
  rw [beq_text, beq_self_eq_true]

theorem told_entry {p q : String × Value} (hp : Clear p.1) (hq : Clear q.1)
    (h : Told chars Alike p.2 q.2) :
    Told entryChars (fun p q => p.1 = q.1 ∧ Alike p.2 q.2) p q := by
  intro r s hr hs heq
  have hcolon {n : String} (hn : Clear n) : ∀ c ∈ n.toList, (c != ':') = true :=
    fun c hc => bne_iff_ne.mpr fun h => hn.1 (h ▸ hc)
  rw [entryChars, entryChars, List.append_assoc, List.append_assoc] at heq
  obtain ⟨hname, hvalue⟩ := append_inj_of_head (p := (· != ':')) (hcolon hp) (by rintro _ ⟨⟩; rfl)
    (hcolon hq) (by rintro _ ⟨⟩; rfl) heq
  obtain ⟨halike, hrest⟩ := h r s hr hs (List.cons.inj hvalue).2
  exact ⟨⟨String.toList_inj.mp hname, halike⟩, hrest⟩

theorem entryChars_eq_cons {p : String × Value} (h : Clear p.1) :
    ∃ c rest, entryChars p = c :: rest ∧ c ≠ '\x7d' := by
  cases hn : p.1.toList with
  | nil => exact ⟨':', _, by rw [entryChars, hn, List.nil_append], by decide⟩
  | cons c rest =>
    have hc := h.2
    rw [hn] at hc
    exact ⟨c, _, by rw [entryChars, hn, List.cons_append], by simpa using hc⟩

theorem told_record {es fs : List (String × Value)} (he : ∀ p ∈ es, Clear p.1)
    (hf : ∀ p ∈ fs, Clear p.1)
    (h : ∀ p ∈ es, ∀ q ∈ fs, Told chars Alike p.2 q.2) :
    Told recordChars (fun r s => Alike (.record r) (.record s))
      ⟨es⟩ ⟨fs⟩ := by
  intro r s _ _ heq
  have hes : (byName es).Perm es := List.mergeSort_perm es _
  have hfs : (byName fs).Perm fs := List.mergeSort_perm fs _
  simp only [recordChars_eq, List.cons_append, List.append_assoc, List.nil_append,
    List.cons.injEq, true_and] at heq
  obtain ⟨hentries, hrest⟩ := told_list (by decide)
    (fun p hp => entryChars_eq_cons (he p (hes.mem_iff.mp hp)))
    (fun p hp => entryChars_eq_cons (hf p (hfs.mem_iff.mp hp)))
    (fun p hp q hq => by
      have hp := hes.mem_iff.mp hp
      have hq := hfs.mem_iff.mp hq
      exact told_entry (he p hp) (hf q hq) (h p hp q hq)) heq
  exact ⟨.record_of_perm hes hfs hentries, hrest⟩

theorem Built.ne_bracket {P : String → Prop} (h : Built P v) :
    ∃ c rest, v.chars = c :: rest ∧ c ≠ ']' := by
  obtain ⟨c, rest, hc, hkind⟩ := exists_mark h
  refine ⟨c, rest, hc, ?_⟩
  rintro rfl
  cases hkind

theorem Built.names {P : String → Prop} {t : Table} (h : Built P (.table t)) :
    ∀ r ∈ t, ∀ p ∈ r.entries, P p.1 := by
  cases h
  assumption

theorem Built.values {P : String → Prop} {t : Table} (h : Built P (.table t)) :
    ∀ r ∈ t, ∀ p ∈ r.entries, Built P p.2 := by
  cases h
  assumption

theorem told_column {vs ws : List Value} (hv : Built Clear (.table (Table.ofValues vs)))
    (hw : Built Clear (.table (Table.ofValues ws)))
    (h : ∀ v ∈ vs, ∀ w ∈ ws, Told chars Alike v w) :
    Told chars Alike (.table (Table.ofValues vs)) (.table (Table.ofValues ws)) := by
  intro r s _ _ heq
  have hitem {us : List Value} (hu : Built Clear (.table (Table.ofValues us))) :
      ∀ u ∈ us, ∃ c rest, u.chars = c :: rest ∧ c ≠ ']' := fun u hmem =>
    (hu.values _ (List.mem_map_of_mem hmem) _ (List.mem_singleton_self _)).ne_bracket
  simp only [chars_ofValues, List.cons_append, List.append_assoc, List.nil_append,
    List.cons.injEq, true_and] at heq
  obtain ⟨hitems, hrest⟩ := told_list (by decide) (hitem hv) (hitem hw) h heq
  exact ⟨.ofValues hitems, hrest⟩

theorem told_rows {t u : Table} (ht : ¬ Table.isColumn t) (hu : ¬ Table.isColumn u)
    (h : ∀ r ∈ t, ∀ s ∈ u,
      Told recordChars (fun r s => Alike (.record r) (.record s)) r s) :
    Told chars Alike (.table t) (.table u) := by
  intro r s _ _ heq
  have hrow (t : Table) : ∀ r ∈ t, ∃ c rest, recordChars r = c :: rest ∧ c ≠ ')' :=
    fun ⟨es⟩ _ => ⟨_, _, recordChars_eq es, by decide⟩
  simp only [chars_rows ht, chars_rows hu, List.append_assoc, List.cons_append, List.nil_append]
    at heq
  obtain ⟨hrows, hrest⟩ :=
    told_list (by decide) (hrow t) (hrow u) h (List.append_cancel_left heq)
  exact ⟨.table hrows, hrest⟩

theorem not_told_column_rows {vs : List Value} {t : Table} (ht : ¬ Table.isColumn t) :
    (table (Table.ofValues vs)).chars ++ r ≠ (table t).chars ++ s := by
  rw [chars_ofValues, chars_rows ht]
  rintro ⟨⟩

theorem told_table {t u : Table} (ht : Built Clear (.table t)) (hu : Built Clear (.table u))
    (h : ∀ r ∈ t, ∀ p ∈ r.entries, ∀ w, Built Clear w → Told chars Alike p.2 w) :
    Told chars Alike (.table t) (.table u) := by
  by_cases htc : Table.isColumn t <;> by_cases huc : Table.isColumn u
  · obtain ⟨vs, rfl⟩ := Table.isColumn_iff.mp htc
    obtain ⟨ws, rfl⟩ := Table.isColumn_iff.mp huc
    refine told_column ht hu fun v hv w hw => ?_
    exact h _ (List.mem_map_of_mem hv) _ (List.mem_singleton_self _) w
      (hu.values _ (List.mem_map_of_mem hw) _ (List.mem_singleton_self _))
  · obtain ⟨vs, rfl⟩ := Table.isColumn_iff.mp htc
    exact fun r s _ _ heq => absurd heq (not_told_column_rows huc)
  · obtain ⟨ws, rfl⟩ := Table.isColumn_iff.mp huc
    exact fun r s _ _ heq => absurd heq.symm (not_told_column_rows htc)
  · exact told_rows htc huc fun r hr s hs => told_record (ht.names r hr) (hu.names s hs)
      fun p hp q hq => h r hr p hp q.2 (hu.values s hs q hq)

/-- Values whose texts are the same, up to what closes them, are alike. By induction on the first
value: the first character of the text fixes the kind of the second. -/
theorem told_of_built (hv : Built Clear v) (hw : Built Clear w) : Told chars Alike v w := by
  intro r s hr hs heq
  have hkind := kind_eq_of_chars hv hw heq
  induction hv generalizing w r s with
  | blank =>
    cases hw <;> cases hkind
    exact ⟨.of_beq beq_blank, List.append_cancel_left heq⟩
  | boolean b =>
    cases hw <;> cases hkind
    next c => exact told_boolean b c r s hr hs heq
  | number hx =>
    cases hw <;> cases hkind
    next hy => exact told_number hx hy r s hr hs heq
  | text a =>
    cases hw <;> cases hkind
    exact told_text a _ r s hr hs heq
  | @record q hn hb ih =>
    cases hw <;> cases hkind
    next q' hn' hb' =>
      refine told_record hn hn'
        (fun p hp p' hp' r s hr hs heq => ?_) r s hr hs ?_
      · exact ih p hp (hb' p' hp') r s hr hs heq (kind_eq_of_chars (hb p hp) (hb' p' hp') heq)
      · rwa [chars_record, chars_record] at heq
  | @table t hn hb ih =>
    cases hw <;> cases hkind
    next u hn' hb' =>
      refine told_table (.table hn hb) (.table hn' hb')
        (fun q hq p hp w hw r s hr hs heq => ?_) r s hr hs heq
      exact ih q hq p hp hw r s hr hs heq (kind_eq_of_chars (hb q hq p hp) hw heq)

/-- Values with clear names for their fields that have the same canonical form are equal up to the
order of fields. -/
theorem alike_of_canonical_eq (hv : Built Clear v) (hw : Built Clear w)
    (h : v.canonical = w.canonical) : Alike v w :=
  (told_of_built hv hw [] [] closed_nil closed_nil (by rw [chars, chars, h])).1

/-- The same order line twice, with its fields in a different order. -/
theorem alike_lines : Alike
    (.record ⟨[("item", .text "tea, \"green\""), ("count", .number 2.0)]⟩)
    (.record ⟨[("count", .number 2.0), ("item", .text "tea, \"green\"")]⟩) := by
  refine alike_of_canonical_eq (.record ?_ ?_) (.record ?_ ?_)
    (canonical_of_perm (.swap ..) (by decide))
  · decide
  · simpa using ⟨Built.text _, Built.number (by decide +kernel)⟩
  · decide
  · simpa using ⟨Built.number (by decide +kernel), Built.text _⟩

/-- A name with a colon in it, and two names without: `'a:true,b'` beside `a` and `b`. -/
theorem exists_unlike_of_canonical_eq :
    ¬ ∀ v w : Value, Built (fun n => n ≠ "") v → Built (fun n => n ≠ "") w →
      v.canonical = w.canonical → Alike v w := by
  intro h
  have hunlike : ¬ Alike (.record ⟨[("a:true,b", .boolean false)]⟩)
      (.record ⟨[("a", .boolean true), ("b", .boolean false)]⟩) := by
    rintro ⟨u, hu, hbeq⟩
    obtain ⟨⟨es⟩, rfl, hnames⟩ := hu.of_record
    obtain ⟨⟨n, x⟩, rfl, rfl⟩ := List.map_eq_singleton_iff.mp (List.perm_singleton.mp hnames.symm)
    rw [beq_record, beqEntries] at hbeq
    revert hbeq
    simp
  refine hunlike (h _ _ (.record (by decide) ?_) (.record (by decide) ?_) ?_)
  · simpa using Built.boolean false
  · simpa using ⟨Built.boolean true, Built.boolean false⟩
  · rw [canonical_of_sorted (by decide), canonical_of_sorted (by decide)]
    simp [entryChars, chars, canonical, boolText]

end

end FormulaShell.Value

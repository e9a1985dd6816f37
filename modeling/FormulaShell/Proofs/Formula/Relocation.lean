import FormulaShell.Proofs.Formula.Contents
import FormulaShell.Proofs.Formula.Reading

namespace FormulaShell.Formula

open FormulaShell.Text

namespace Expr

mutual

/-- The expression with all its positions forgotten. -/
def unplaced : Expr → Expr
  | number x => number x
  | text s => text s
  | boolean b => boolean b
  | name n _ => name n 0
  | record fields => record (fieldsUnplaced fields)
  | table items => table (allUnplaced items)
  | unary op e => unary op (unplaced e)
  | percent e => percent (unplaced e)
  | binary op l r => binary op (unplaced l) (unplaced r)
  | field e n => field (unplaced e) n
  | call f args _ => call f (allUnplaced args) 0
  | chain items => chain (allUnplaced items)

def allUnplaced : List Expr → List Expr
  | [] => []
  | e :: rest => unplaced e :: allUnplaced rest

def fieldsUnplaced : List (String × Expr) → List (String × Expr)
  | [] => []
  | (n, e) :: rest => (n, unplaced e) :: fieldsUnplaced rest

end

end Expr

def TypeName.unplaced (t : TypeName) : TypeName := { t with offset := 0 }

def Param.unplaced (p : Param) : Param := { p with type := p.type.unplaced }

def FunctionDef.unplaced (f : FunctionDef) : FunctionDef where
  name := f.name
  offset := 0
  params := f.params.map Param.unplaced
  result := f.result.unplaced
  body := f.body.unplaced

def Symbol.unplaced : (s : Symbol) → s.Value → s.Value
  | list | items | chain => Expr.allUnplaced
  | fields _ | entries => Expr.fieldsUnplaced
  | row _ | operand | suffixed | atom => Expr.unplaced

/-- Two lists of tokens that differ in positions only. -/
def SameContents (ts us : List Token) : Prop := ts.map Token.content = us.map Token.content

def Token.at (t : Token) (p : Position) : Token := { t with start := p }

theorem eq_at_of_content {t u : Token} (h : t.content = u.content) : t = u.at t.start := by
  obtain ⟨kind, value, start⟩ := t
  obtain ⟨kind', value', start'⟩ := u
  obtain ⟨rfl, rfl⟩ : kind = kind' ∧ value = value' := by simpa [Token.content] using h
  rfl

namespace SameContents

variable {ts us vs : List Token} {t : Token}

theorem nil (h : SameContents ts []) : ts = [] := List.map_eq_nil_iff.mp h

theorem cons (h : SameContents ts (t :: us)) :
    ∃ p vs, ts = t.at p :: vs ∧ SameContents vs us := by
  obtain ⟨t', vs, rfl, ht, hvs⟩ := List.map_eq_cons_iff.mp h
  refine ⟨t'.start, vs, ?_, hvs⟩
  rw [← eq_at_of_content ht]

theorem append (h : SameContents ts (us ++ vs)) :
    ∃ us' vs', ts = us' ++ vs' ∧ SameContents us' us ∧ SameContents vs' vs := by
  rw [SameContents, List.map_append] at h
  exact List.map_eq_append_iff.mp h

theorem single (h : SameContents ts [t]) : ∃ p, ts = [t.at p] := by
  obtain ⟨p, vs, rfl, hvs⟩ := h.cons
  exact ⟨p, by rw [hvs.nil]⟩

theorem joined (h : SameContents ts (us ++ t :: vs)) :
    ∃ us' p vs', ts = us' ++ t.at p :: vs' ∧ SameContents us' us ∧ SameContents vs' vs := by
  obtain ⟨us', ws, rfl, hus, hws⟩ := h.append
  obtain ⟨p, vs', rfl, hvs⟩ := hws.cons
  exact ⟨us', p, vs', rfl, hus, hvs⟩

theorem ended (h : SameContents ts (us ++ [t])) :
    ∃ us' p, ts = us' ++ [t.at p] ∧ SameContents us' us := by
  obtain ⟨us', p, vs', rfl, hus, hvs⟩ := h.joined
  exact ⟨us', p, by rw [hvs.nil], hus⟩

theorem enclosed {u : Token} (h : SameContents ts (t :: (us ++ [u]))) :
    ∃ p us' q, ts = t.at p :: (us' ++ [u.at q]) ∧ SameContents us' us := by
  obtain ⟨p, ws, rfl, hws⟩ := h.cons
  obtain ⟨us', q, rfl, hus⟩ := hws.ended
  exact ⟨p, us', q, rfl, hus⟩

end SameContents

def Terminal.at {kind : TokenKind} (t : Terminal kind) (p : Position) : Terminal kind :=
  ⟨t.1.at p, t.2⟩

def Operator.at {l : Level} (op : Operator l) (p : Position) : Operator l :=
  ⟨op.token.at p, op.op, op.mem, op.means⟩

def Sign.at (sign : Sign) (p : Position) : Sign := ⟨sign.token.at p, sign.mem⟩

theorem unplaced_apply (sign : Sign) (p : Position) {e e' : Expr} (h : e'.unplaced = e.unplaced) :
    ((sign.at p).apply e').unplaced = (sign.apply e).unplaced := by
  change (Sign.apply sign e').unplaced = _
  unfold Sign.apply
  split
  · exact congrArg (Expr.unary .neg) h
  · exact congrArg (Expr.unary .not) h
  · exact h

theorem unplaced_inSequence {es es' : List Expr} (h : Expr.allUnplaced es' = Expr.allUnplaced es) :
    (inSequence es').unplaced = (inSequence es).unplaced := by
  match es, es', h with
  | [], [], _ => rfl
  | [e], [e'], h => exact (List.cons.inj h).1
  | [e], e' :: f' :: es', h => cases (List.cons.inj h).2
  | e :: f :: es, [e'], h => cases (List.cons.inj h).2
  | e :: f :: es, e' :: f' :: es', h => exact congrArg Expr.chain h

structure Relocates {s : Symbol} (d : Derivation s) (ts : List Token) (d' : Derivation s) :
    Prop where
  tokens : d'.tokens = ts
  nesting : d'.nesting = d.nesting
  value : s.unplaced d'.value = s.unplaced d.value

theorem Derivation.exists_relocates {s : Symbol} (d : Derivation s) {ts : List Token}
    (h : SameContents ts d.tokens) : ∃ d', Relocates d ts d' := by
  -- The rows of tokens come apart as the derivation does, and each part is relocated by itself.
  induction d generalizing ts with
  | operand e ih =>
    obtain ⟨e', he⟩ := ih h
    exact ⟨.operand e', he.1, he.2, he.3⟩
  | tighter e ih =>
    obtain ⟨e', he⟩ := ih h
    exact ⟨.tighter e', he.1, he.2, he.3⟩
  | unsigned e ih =>
    obtain ⟨e', he⟩ := ih h
    exact ⟨.unsigned e', he.1, he.2, he.3⟩
  | bare e ih =>
    obtain ⟨e', he⟩ := ih h
    exact ⟨.bare e', he.1, he.2, he.3⟩
  | left ha a op b iha ihb =>
    obtain ⟨us, p, vs, rfl, hus, hvs⟩ := h.joined
    obtain ⟨a', rfl, hna, hva⟩ := iha hus
    obtain ⟨b', rfl, hnb, hvb⟩ := ihb hvs
    refine ⟨.left ha a' (op.at p) b', rfl, congrArg₂ max hna hnb, ?_⟩
    exact congrArg₂ (Expr.binary op.op) hva hvb
  | right ha a op b iha ihb =>
    obtain ⟨us, p, vs, rfl, hus, hvs⟩ := h.joined
    obtain ⟨a', rfl, hna, hva⟩ := iha hus
    obtain ⟨b', rfl, hnb, hvb⟩ := ihb hvs
    refine ⟨.right ha a' (op.at p) b', rfl, congrArg₂ max hna hnb, ?_⟩
    exact congrArg₂ (Expr.binary op.op) hva hvb
  | single ha a op b iha ihb =>
    obtain ⟨us, p, vs, rfl, hus, hvs⟩ := h.joined
    obtain ⟨a', rfl, hna, hva⟩ := iha hus
    obtain ⟨b', rfl, hnb, hvb⟩ := ihb hvs
    refine ⟨.single ha a' (op.at p) b', rfl, congrArg₂ max hna hnb, ?_⟩
    exact congrArg₂ (Expr.binary op.op) hva hvb
  | signed sign e ih =>
    obtain ⟨p, us, rfl, hus⟩ := h.cons
    obtain ⟨e', rfl, hn, hv⟩ := ih hus
    exact ⟨.signed (sign.at p) e', rfl, congrArg (· + 1) hn, unplaced_apply sign p hv⟩
  | percent e mark ih =>
    obtain ⟨us, p, rfl, hus⟩ := h.ended
    obtain ⟨e', rfl, hn, hv⟩ := ih hus
    exact ⟨.percent e' (mark.at p), rfl, hn, congrArg Expr.percent hv⟩
  | field e dot name ih =>
    obtain ⟨us, vs, rfl, hus, hvs⟩ := h.append
    obtain ⟨p, ws, rfl, hws⟩ := hvs.cons
    obtain ⟨q, rfl⟩ := hws.single
    obtain ⟨e', rfl, hn, hv⟩ := ih hus
    exact ⟨.field e' (dot.at p) (name.at q), rfl, hn, congrArg (Expr.field · name.1.value) hv⟩
  | number t x hx =>
    obtain ⟨p, rfl⟩ := h.single
    exact ⟨.number (t.at p) x hx, rfl, rfl, rfl⟩
  | text t =>
    obtain ⟨p, rfl⟩ := h.single
    exact ⟨.text (t.at p), rfl, rfl, rfl⟩
  | truth t =>
    obtain ⟨p, rfl⟩ := h.single
    exact ⟨.truth (t.at p), rfl, rfl, rfl⟩
  | falsehood t =>
    obtain ⟨p, rfl⟩ := h.single
    exact ⟨.falsehood (t.at p), rfl, rfl, rfl⟩
  | name t =>
    obtain ⟨p, rfl⟩ := h.single
    exact ⟨.name (t.at p), rfl, rfl, rfl⟩
  | call name open_ args close ih =>
    obtain ⟨p, us, rfl, hus⟩ := h.cons
    obtain ⟨q, vs, r, rfl, hvs⟩ := hus.enclosed
    obtain ⟨args', rfl, hn, hv⟩ := ih hvs
    exact ⟨.call (name.at p) (open_.at q) args' (close.at r), rfl, hn,
      congrArg (Expr.call name.1.value · 0) hv⟩
  | group open_ inner close ih =>
    obtain ⟨p, us, q, rfl, hus⟩ := h.enclosed
    obtain ⟨inner', rfl, hn, hv⟩ := ih hus
    exact ⟨.group (open_.at p) inner' (close.at q), rfl, congrArg (· + 1) hn,
      unplaced_inSequence hv⟩
  | record open_ entries close ih =>
    obtain ⟨p, us, q, rfl, hus⟩ := h.enclosed
    obtain ⟨entries', rfl, hn, hv⟩ := ih hus
    exact ⟨.record (open_.at p) entries' (close.at q), rfl, hn, congrArg Expr.record hv⟩
  | table open_ items close ih =>
    obtain ⟨p, us, q, rfl, hus⟩ := h.enclosed
    obtain ⟨items', rfl, hn, hv⟩ := ih hus
    exact ⟨.table (open_.at p) items' (close.at q), rfl, hn, congrArg Expr.table hv⟩
  | lastItem e ih =>
    obtain ⟨e', he⟩ := ih h
    exact ⟨.lastItem e', he.1, he.2, congrArg ([·]) he.3⟩
  | consItem e comma more ihe ihmore =>
    obtain ⟨us, p, vs, rfl, hus, hvs⟩ := h.joined
    obtain ⟨e', rfl, hne, hve⟩ := ihe hus
    obtain ⟨more', rfl, hnm, hvm⟩ := ihmore hvs
    exact ⟨.consItem e' (comma.at p) more', rfl, congrArg₂ max hne hnm,
      congrArg₂ List.cons hve hvm⟩
  | noItems =>
    obtain rfl := h.nil
    exact ⟨.noItems, rfl, rfl, rfl⟩
  | someItems list ih =>
    obtain ⟨list', hl⟩ := ih h
    exact ⟨.someItems list', hl.1, congrArg (· + 1) hl.2, hl.3⟩
  | lastField name fresh colon e ih =>
    obtain ⟨p, us, rfl, hus⟩ := h.cons
    obtain ⟨q, vs, rfl, hvs⟩ := hus.cons
    obtain ⟨e', rfl, hn, hv⟩ := ih hvs
    exact ⟨.lastField (name.at p) fresh (colon.at q) e', rfl, hn,
      congrArg (fun e => [(name.1.value, e)]) hv⟩
  | consField name fresh colon e comma more ihe ihmore =>
    obtain ⟨p, us, rfl, hus⟩ := h.cons
    obtain ⟨q, vs, rfl, hvs⟩ := hus.cons
    obtain ⟨ws, r, zs, rfl, hws, hzs⟩ := hvs.joined
    obtain ⟨e', rfl, hne, hve⟩ := ihe hws
    obtain ⟨more', rfl, hnm, hvm⟩ := ihmore hzs
    exact ⟨.consField (name.at p) fresh (colon.at q) e' (comma.at r) more', rfl,
      congrArg₂ max hne hnm, congrArg₂ (fun e es => (name.1.value, e) :: es) hve hvm⟩
  | noEntries =>
    obtain rfl := h.nil
    exact ⟨.noEntries, rfl, rfl, rfl⟩
  | someEntries fields ih =>
    obtain ⟨fields', hf⟩ := ih h
    exact ⟨.someEntries fields', hf.1, congrArg (· + 1) hf.2, hf.3⟩
  | lastLink e ih =>
    obtain ⟨e', he⟩ := ih h
    exact ⟨.lastLink e', he.1, he.2, congrArg ([·]) he.3⟩
  | endLink e semicolon ih =>
    obtain ⟨us, p, rfl, hus⟩ := h.ended
    obtain ⟨e', rfl, hn, hv⟩ := ih hus
    exact ⟨.endLink e' (semicolon.at p), rfl, hn, congrArg ([·]) hv⟩
  | consLink e semicolon more ihe ihmore =>
    obtain ⟨us, p, vs, rfl, hus, hvs⟩ := h.joined
    obtain ⟨e', rfl, hne, hve⟩ := ihe hus
    obtain ⟨more', rfl, hnm, hvm⟩ := ihmore hvs
    exact ⟨.consLink e' (semicolon.at p) more', rfl, congrArg₂ max hne hnm,
      congrArg₂ List.cons hve hvm⟩

theorem ParamDerivation.exists_relocated (d : ParamDerivation) {ts us : List Token}
    (h : SameContents ts (d.tokens ++ us)) :
    ∃ (d' : ParamDerivation) (vs : List Token), ts = d'.tokens ++ vs ∧
      d'.value.unplaced = d.value.unplaced ∧ SameContents vs us := by
  obtain ⟨name, colon, type⟩ := d
  obtain ⟨p, ws, rfl, hws⟩ := h.cons
  obtain ⟨q, xs, rfl, hxs⟩ := hws.cons
  obtain ⟨r, vs, rfl, hvs⟩ := hxs.cons
  exact ⟨⟨name.at p, colon.at q, type.at r⟩, vs, rfl, rfl, hvs⟩

theorem ParamListDerivation.exists_relocated (d : ParamListDerivation) {ts us : List Token}
    (h : SameContents ts (d.tokens ++ us)) :
    ∃ (d' : ParamListDerivation) (vs : List Token), ts = d'.tokens ++ vs ∧
      d'.value.map Param.unplaced = d.value.map Param.unplaced ∧ SameContents vs us := by
  induction d generalizing ts with
  | last param =>
    obtain ⟨param', vs, rfl, hp, hvs⟩ := param.exists_relocated h
    exact ⟨.last param', vs, rfl, congrArg ([·]) hp, hvs⟩
  | cons param comma more ih =>
    rw [tokens, List.append_assoc] at h
    obtain ⟨param', vs, rfl, hp, hvs⟩ := param.exists_relocated h
    obtain ⟨p, ws, rfl, hws⟩ := hvs.cons
    obtain ⟨more', xs, rfl, hm, hxs⟩ := ih hws
    refine ⟨.cons param' (comma.at p) more', xs, ?_, congrArg₂ List.cons hp hm, hxs⟩
    exact (List.append_assoc param'.tokens ((comma.at p).1 :: more'.tokens) xs).symm

theorem BodyDerivation.exists_relocated (d : BodyDerivation) {ts : List Token}
    (h : SameContents ts d.tokens) :
    ∃ d' : BodyDerivation, d'.tokens = ts ∧ d'.nesting = d.nesting ∧
      d'.value.unplaced = d.value.unplaced := by
  cases d with
  | equation equal e =>
    obtain ⟨p, us, rfl, hus⟩ := h.cons
    obtain ⟨e', rfl, hn, hv⟩ := e.exists_relocates hus
    exact ⟨.equation (equal.at p) e', rfl, hn, hv⟩
  | block open_ inner close =>
    obtain ⟨p, us, q, rfl, hus⟩ := h.enclosed
    obtain ⟨inner', rfl, hn, hv⟩ := inner.exists_relocates hus
    exact ⟨.block (open_.at p) inner' (close.at q), rfl, hn, unplaced_inSequence hv⟩

theorem DefinitionDerivation.exists_relocated (d : DefinitionDerivation) {ts : List Token}
    (h : SameContents ts d.tokens) :
    ∃ d' : DefinitionDerivation, d'.tokens = ts ∧ d'.body.nesting = d.body.nesting ∧
      d'.value.unplaced = d.value.unplaced := by
  obtain ⟨name, open_, params, close, colon, type, body⟩ := d
  obtain ⟨p, us, rfl, hus⟩ := h.cons
  obtain ⟨q, vs, rfl, hvs⟩ := hus.cons
  obtain ⟨params', ws, rfl, hp, hws⟩ : ∃ (params' : Option ParamListDerivation) (ws : List Token),
      vs = paramTokens params' ++ ws ∧
      (paramValues params').map Param.unplaced = (paramValues params).map Param.unplaced ∧
      SameContents ws (close.1 :: colon.1 :: type.1 :: body.tokens) := by
    cases params with
    | none => exact ⟨none, vs, rfl, rfl, hvs⟩
    | some l =>
      obtain ⟨l', ws, hts, hl, hws⟩ := l.exists_relocated hvs
      exact ⟨some l', ws, hts, hl, hws⟩
  obtain ⟨r, xs, rfl, hxs⟩ := hws.cons
  obtain ⟨s, ys, rfl, hys⟩ := hxs.cons
  obtain ⟨t, zs, rfl, hzs⟩ := hys.cons
  obtain ⟨body', rfl, hn, hv⟩ := body.exists_relocated hzs
  refine ⟨⟨name.at p, open_.at q, params', close.at r, colon.at s, type.at t, body'⟩, rfl, hn, ?_⟩
  simp only [FunctionDef.unplaced, value, hp, hv]
  rfl

theorem DefinitionsDerivation.exists_relocated (d : DefinitionsDerivation) {ts : List Token}
    (h : SameContents ts d.tokens) :
    ∃ d' : DefinitionsDerivation, d'.tokens = ts ∧ d'.nesting = d.nesting ∧
      d'.value.map FunctionDef.unplaced = d.value.map FunctionDef.unplaced := by
  induction d generalizing ts with
  | last d =>
    obtain ⟨d', rfl, hn, hv⟩ := d.exists_relocated h
    exact ⟨.last d', rfl, hn, congrArg ([·]) hv⟩
  | ended d semicolon =>
    obtain ⟨us, p, rfl, hus⟩ := h.ended
    obtain ⟨d', rfl, hn, hv⟩ := d.exists_relocated hus
    exact ⟨.ended d' (semicolon.at p), rfl, hn, congrArg ([·]) hv⟩
  | cons d semicolon more ih =>
    obtain ⟨us, p, vs, rfl, hus, hvs⟩ := h.joined
    obtain ⟨d', rfl, hn, hv⟩ := d.exists_relocated hus
    obtain ⟨more', rfl, hnm, hvm⟩ := ih hvs
    exact ⟨.cons d' (semicolon.at p) more', rfl, congrArg₂ max hn hnm, congrArg₂ List.cons hv hvm⟩

theorem readDefinitions_of_contents? {source source' : String}
    (h : contents? source' = contents? source) {fs : List FunctionDef}
    (hfs : readDefinitions source = .ok fs) :
    ∃ fs', readDefinitions source' = .ok fs' ∧
      fs'.map FunctionDef.unplaced = fs.map FunctionDef.unplaced := by
  rw [readDefinitions, tokens] at hfs
  cases hlex : lex source with
  | error e =>
    rw [hlex] at hfs
    cases hfs
  | ok ts =>
    rw [hlex] at hfs
    obtain ⟨d, hd, hn, rfl⟩ := (definitions_iff_derivation ts fs).mp (mapError_eq_ok.mp hfs)
    rw [contents?, contents?, hlex] at h
    cases hlex' : lex source' with
    | error e =>
      rw [hlex'] at h
      cases h
    | ok ts' =>
      rw [hlex'] at h
      have hsame : SameContents ts'.list d.tokens := by
        rw [hd]
        exact Option.some.inj h
      obtain ⟨d', hd', hn', hv⟩ := d.exists_relocated hsame
      refine ⟨d'.value, ?_, hv⟩
      rw [readDefinitions, tokens, hlex']
      exact mapError_eq_ok.mpr
        ((definitions_iff_derivation ts' _).mpr ⟨d', hd', hn' ▸ hn, rfl⟩)

end FormulaShell.Formula

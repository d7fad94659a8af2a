import RetroShare.Util.RegularExpression

/-!
# Linearisation and its inverse

`toExpr` consumes the three vectors in the order in which `linearize` filled them, so it returns the
expression that was linearised, except that every `PathExpression` has become an `ExtExpression`.
-/

namespace RetroShare.RegularExpression

namespace Expression

/-- No null pointer in the tree. -/
def Complete : Expression → Prop
  | null => False
  | compound _ left right => left.Complete ∧ right.Complete
  | _ => True

/-- The tree with its path nodes turned into extension nodes. -/
def pathAsExt : Expression → Expression
  | path str => ext str
  | compound op left right => compound op left.pathAsExt right.pathAsExt
  | expr => expr

/-- What `linearize` adds to each vector. -/
def linearized : Expression → LinearizedExpression
  | null => .empty
  | date rel => rel.linearize (LinearizedExpression.empty.pushToken .date)
  | pop rel => rel.linearize (LinearizedExpression.empty.pushToken .pop)
  | size rel => rel.linearize (LinearizedExpression.empty.pushToken .size)
  | sizeMB rel => rel.linearize (LinearizedExpression.empty.pushToken .sizeMB)
  | hash op terms => StringExpression.linearize ⟨op, terms, true⟩
      (LinearizedExpression.empty.pushToken .hash)
  | name str => str.linearize (LinearizedExpression.empty.pushToken .name)
  | path str => str.linearize (LinearizedExpression.empty.pushToken .path)
  | ext str => str.linearize (LinearizedExpression.empty.pushToken .ext)
  | compound op left right =>
      ⟨Token.comp.code :: (left.linearized.tokens ++ right.linearized.tokens),
        op.code :: (left.linearized.ints ++ right.linearized.ints),
        left.linearized.strings ++ right.linearized.strings⟩

end Expression

open Expression

/-- The vectors one behind the other. -/
def LinearizedExpression.append (e e' : LinearizedExpression) : LinearizedExpression :=
  ⟨e.tokens ++ e'.tokens, e.ints ++ e'.ints, e.strings ++ e'.strings⟩

theorem linearize_eq (expr : Expression) (hcomplete : expr.Complete) (e : LinearizedExpression) :
    expr.linearize e = some (e.append expr.linearized) := by
  induction expr generalizing e with
  | null => exact hcomplete.elim
  | compound op left right ihLeft ihRight =>
      rw [Expression.linearize, ihLeft hcomplete.1, Option.bind_some, ihRight hcomplete.2]
      simp [LinearizedExpression.append, LinearizedExpression.pushToken,
        LinearizedExpression.pushInts, linearized]
  | _ =>
      simp [Expression.linearize, RelExpression.linearize, StringExpression.linearize,
        LinearizedExpression.append, LinearizedExpression.pushToken,
        LinearizedExpression.pushInts, LinearizedExpression.pushStrings, linearized,
        LinearizedExpression.empty]

theorem complete_of_linearize {expr : Expression} {e e' : LinearizedExpression}
    (hlinearize : expr.linearize e = some e') : expr.Complete := by
  induction expr generalizing e e' with
  | null => cases hlinearize
  | compound op left right ihLeft ihRight =>
      obtain ⟨middle, hleft, hright⟩ := Option.bind_eq_some_iff.mp hlinearize
      exact ⟨ihLeft hleft, ihRight hright⟩
  | _ => trivial

/-! ### Fetching -/

section Fetching

variable {α : Type}

theorem fetch_append (before : List α) (value : α) (after : List α) {values : List α}
    (hvalues : values = before ++ value :: after) (hsize : values.length < 2 ^ 31) :
    fetch values before.length = some (value, before.length + 1) := by
  rw [hvalues, List.length_append, List.length_cons] at hsize
  rw [fetch, if_pos (by omega), hvalues, List.getElem?_append_right (Nat.le_refl _), Nat.sub_self]
  rfl

theorem fetchMany_append {values : List α} (hsize : values.length < 2 ^ 31) (wanted : List α) :
    ∀ before after : List α, values = before ++ (wanted ++ after) →
      fetchMany values wanted.length before.length =
        some (wanted, before.length + wanted.length) := by
  induction wanted with
  | nil => exact fun _ _ _ => rfl
  | cons value wanted ih =>
      intro before after hvalues
      have hfirst := fetch_append before value (wanted ++ after) hvalues hsize
      have hrest := ih (before ++ [value]) after (by simp [hvalues])
      rw [List.length_append, List.length_singleton] at hrest
      rw [List.length_cons, fetchMany, hfirst]
      simp only [Option.bind_eq_bind, Option.bind_some, hrest]
      simp only [Option.pure_def, Option.some.injEq, Prod.mk.injEq, true_and]
      omega

end Fetching

/-! ### Codes -/

theorem RelOperator.ofCode?_code (op : RelOperator) :
    RelOperator.ofCode? op.code = some op := by
  cases op <;> rfl

theorem StringOperator.ofCode?_code (op : StringOperator) :
    StringOperator.ofCode? op.code = some op := by
  cases op <;> rfl

theorem LogicalOperator.ofCode?_code (op : LogicalOperator) :
    LogicalOperator.ofCode? op.code = some op := by
  cases op <;> rfl

theorem Token.ofCode?_code (tok : Token) : Token.ofCode? tok.code = some tok := by
  cases tok <;> rfl

/-- The `int` that counts the strings is the count again. -/
theorem count_toNat {count : Nat} (hcount : count < 2 ^ 31) :
    (UInt32.ofNat count).toInt32.toInt.toNat = count := by
  have hword : (UInt32.ofNat count).toInt32.toInt = (BitVec.ofNat 32 count).toInt := rfl
  rw [hword, BitVec.toInt_eq_toNat_of_lt (by rw [BitVec.toNat_ofNat]; omega), BitVec.toNat_ofNat,
    Int.toNat_natCast, Nat.mod_eq_of_lt (by omega)]

theorem flag_ne_zero (flag : Bool) : ((if flag then 1 else 0 : UInt32) != 0) = flag := by
  cases flag <;> rfl

/-! ### One node -/

/-- All indices of the vectors are values of an `int`. -/
def LinearizedExpression.Fits (e : LinearizedExpression) : Prop :=
  e.tokens.length < 2 ^ 31 ∧ e.ints.length < 2 ^ 31 ∧ e.strings.length < 2 ^ 31

instance (e : LinearizedExpression) : Decidable e.Fits :=
  inferInstanceAs (Decidable (_ ∧ _ ∧ _))

theorem readRelExpr_eq {e : LinearizedExpression} {cur : Cursor} (before after : List UInt32)
    (rel : RelExpression) (hsize : e.ints.length < 2 ^ 31)
    (hints : e.ints =
      before ++ rel.op.code :: rel.lowerValue.toUInt32 :: rel.higherValue.toUInt32 :: after)
    (hcur : cur.ints = before.length) :
    e.readRelExpr cur = some (rel, { cur with ints := before.length + 3 }) := by
  have hop := fetch_append _ _ _ hints hsize
  have hlower := fetch_append (before ++ [rel.op.code]) rel.lowerValue.toUInt32
    (rel.higherValue.toUInt32 :: after) (by rw [hints, List.append_assoc, List.singleton_append]) hsize
  have hhigher := fetch_append (before ++ [rel.op.code, rel.lowerValue.toUInt32])
    rel.higherValue.toUInt32 after
    (by rw [hints, List.append_assoc, List.cons_append, List.singleton_append]) hsize
  simp only [List.length_append, List.length_cons, List.length_nil, Nat.zero_add,
    Nat.add_assoc, Nat.reduceAdd] at hlower hhigher
  simp only [LinearizedExpression.readRelExpr, hcur, hop, Option.bind_eq_bind, Option.bind_some,
    hlower, hhigher, RelOperator.ofCode?_code]
  rfl

theorem readStringExpr_eq {e : LinearizedExpression} {cur : Cursor} (before after : List UInt32)
    (first last : List (List UInt8)) (str : StringExpression) (hfits : e.Fits)
    (hints : e.ints = before ++ str.op.code :: (if str.ignoreCase then 1 else 0) ::
      UInt32.ofNat str.terms.length :: after)
    (hstrings : e.strings = first ++ (str.terms ++ last))
    (hcur : cur.ints = before.length) (hcurStrings : cur.strings = first.length) :
    e.readStringExpr cur = some (str,
      { cur with ints := before.length + 3, strings := first.length + str.terms.length }) := by
  have hterms : str.terms.length < 2 ^ 31 := by
    have hlength := congrArg List.length hstrings
    rw [List.length_append, List.length_append] at hlength
    have := hfits.2.2
    omega
  have hop := fetch_append _ _ _ hints hfits.2.1
  have hcase := fetch_append (before ++ [str.op.code]) (if str.ignoreCase then 1 else 0)
    (UInt32.ofNat str.terms.length :: after)
    (by rw [hints, List.append_assoc, List.singleton_append]) hfits.2.1
  have hcount := fetch_append (before ++ [str.op.code, if str.ignoreCase then 1 else 0])
    (UInt32.ofNat str.terms.length) after
    (by rw [hints, List.append_assoc, List.cons_append, List.singleton_append]) hfits.2.1
  have hmany := fetchMany_append hfits.2.2 str.terms first last hstrings
  simp only [List.length_append, List.length_cons, List.length_nil, Nat.zero_add,
    Nat.add_assoc, Nat.reduceAdd] at hcase hcount
  simp only [LinearizedExpression.readStringExpr, hcur, hcurStrings, hop, Option.bind_eq_bind,
    Option.bind_some, StringOperator.ofCode?_code, hcase, hcount, count_toNat hterms, hmany,
    flag_ne_zero]
  rfl

/-! ### The whole tree -/

namespace LinearizedExpression

/-- The indices that have consumed these vectors. -/
def position (e : LinearizedExpression) : Cursor :=
  ⟨e.tokens.length, e.ints.length, e.strings.length⟩

theorem append_assoc (e₁ e₂ e₃ : LinearizedExpression) :
    (e₁.append e₂).append e₃ = e₁.append (e₂.append e₃) := by
  simp [append]

theorem append_empty (e : LinearizedExpression) : e.append empty = e := by
  simp [append, empty]

theorem empty_append (e : LinearizedExpression) : empty.append e = e := rfl

end LinearizedExpression

open LinearizedExpression

theorem linearized_tokens_pos {expr : Expression} (hcomplete : expr.Complete) :
    0 < expr.linearized.tokens.length := by
  cases expr with
  | null => exact hcomplete.elim
  | _ =>
      simp [linearized, RelExpression.linearize, StringExpression.linearize, pushToken, pushInts,
        pushStrings, LinearizedExpression.empty]

/-- The first token behind `before` is the next to be fetched. -/
theorem fetch_token {e before : LinearizedExpression} (tok : Token) (rest : List UInt8)
    (hfits : e.Fits) (htokens : e.tokens = before.tokens ++ tok.code :: rest) :
    fetch e.tokens before.position.tok = some (tok.code, before.position.tok + 1) :=
  fetch_append before.tokens tok.code rest htokens hfits.1

/-- What `readRelExpr` finds behind a token that was just fetched. -/
theorem readRelExpr_node {e before after : LinearizedExpression} (tok : Token)
    (rel : RelExpression) (hfits : e.Fits)
    (he : e = before.append ((rel.linearize (LinearizedExpression.empty.pushToken tok)).append
      after)) :
    e.readRelExpr { before.position with tok := before.position.tok + 1 } =
      some (rel, (before.append (rel.linearize (LinearizedExpression.empty.pushToken tok))).position)
    := by
  rw [readRelExpr_eq before.ints after.ints rel hfits.2.1]
  · simp [position, LinearizedExpression.append, RelExpression.linearize, pushInts, pushToken,
      LinearizedExpression.empty]
  · simp [he, LinearizedExpression.append, RelExpression.linearize, pushInts, pushToken,
      LinearizedExpression.empty]
  · rfl

theorem readStringExpr_node {e before after : LinearizedExpression} (tok : Token)
    (str : StringExpression) (hfits : e.Fits)
    (he : e = before.append ((str.linearize (LinearizedExpression.empty.pushToken tok)).append
      after)) :
    e.readStringExpr { before.position with tok := before.position.tok + 1 } =
      some (str, (before.append (str.linearize (LinearizedExpression.empty.pushToken tok))).position)
    := by
  rw [readStringExpr_eq before.ints after.ints before.strings after.strings str hfits]
  · simp [position, LinearizedExpression.append, StringExpression.linearize, pushInts, pushToken,
      pushStrings, LinearizedExpression.empty]
  · simp [he, LinearizedExpression.append, StringExpression.linearize, pushInts, pushToken,
      pushStrings, LinearizedExpression.empty]
  · simp [he, LinearizedExpression.append, StringExpression.linearize, pushInts, pushToken,
      pushStrings, LinearizedExpression.empty]
  · rfl
  · rfl

theorem toExprFrom_linearized (expr : Expression) (hcomplete : expr.Complete)
    {e : LinearizedExpression} (before after : LinearizedExpression) (hfits : e.Fits)
    (he : e = before.append (expr.linearized.append after)) (fuel : Nat)
    (hfuel : expr.linearized.tokens.length ≤ fuel) :
    e.toExprFrom fuel before.position =
      some (expr.pathAsExt, (before.append expr.linearized).position) := by
  -- the vectors behind a node are those that later siblings of it and of its ancestors fill
  induction expr generalizing before after fuel with
  | null => exact hcomplete.elim
  | compound op left right ihLeft ihRight =>
      obtain ⟨fuel, rfl⟩ := Nat.exists_eq_add_one_of_ne_zero
        ((linearized_tokens_pos hcomplete).trans_le hfuel).ne'
      have hlength : left.linearized.tokens.length + right.linearized.tokens.length ≤ fuel := by
        simpa [linearized] using hfuel
      let head : LinearizedExpression := before.append ⟨[Token.comp.code], [op.code], []⟩
      have hleft := ihLeft hcomplete.1 head (right.linearized.append after)
        (by simp [he, head, linearized, LinearizedExpression.append]) fuel (by omega)
      have hright := ihRight hcomplete.2 (head.append left.linearized) after
        (by simp [he, head, linearized, LinearizedExpression.append]) fuel (by omega)
      have htok := fetch_token .comp
        (left.linearized.tokens ++ (right.linearized.tokens ++ after.tokens)) hfits
        (show e.tokens = before.tokens ++ _ by simp [he, linearized, LinearizedExpression.append])
      have hop := fetch_append before.ints op.code
        (left.linearized.ints ++ (right.linearized.ints ++ after.ints))
        (show e.ints = _ by simp [he, linearized, LinearizedExpression.append]) hfits.2.1
      have hhead : head.position = ⟨before.position.tok + 1, before.position.ints + 1,
          before.position.strings⟩ := by
        simp [head, position, LinearizedExpression.append]
      have hend : ((head.append left.linearized).append right.linearized).position =
          (before.append (compound op left right).linearized).position := by
        simp [head, position, linearized, LinearizedExpression.append]
      rw [toExprFrom, htok]
      simp only [Option.bind_eq_bind, Option.bind_some, Token.ofCode?_code]
      rw [show before.position.ints = before.ints.length from rfl, hop]
      simp only [Option.bind_some, LogicalOperator.ofCode?_code]
      rw [show (⟨before.position.tok + 1, before.ints.length + 1, before.position.strings⟩ : Cursor)
        = head.position from hhead.symm, hleft, Option.bind_some, hright, Option.bind_some, hend]
      rfl
  | date rel | pop rel | size rel | sizeMB rel =>
      obtain ⟨fuel, rfl⟩ := Nat.exists_eq_add_one_of_ne_zero
        ((linearized_tokens_pos hcomplete).trans_le hfuel).ne'
      have hread := readRelExpr_node _ rel hfits he
      have htok := fetch_token _ after.tokens hfits
        (show e.tokens = before.tokens ++ Token.code _ :: after.tokens by rw [he]; rfl)
      rw [toExprFrom, htok]
      simp only [Option.bind_eq_bind, Option.bind_some, Token.ofCode?_code]
      rw [hread]
      rfl
  | name str | path str | ext str =>
      obtain ⟨fuel, rfl⟩ := Nat.exists_eq_add_one_of_ne_zero
        ((linearized_tokens_pos hcomplete).trans_le hfuel).ne'
      have hread := readStringExpr_node _ str hfits he
      have htok := fetch_token _ after.tokens hfits
        (show e.tokens = before.tokens ++ Token.code _ :: after.tokens by rw [he]; rfl)
      rw [toExprFrom, htok]
      simp only [Option.bind_eq_bind, Option.bind_some, Token.ofCode?_code]
      rw [hread]
      rfl
  | hash op terms =>
      obtain ⟨fuel, rfl⟩ := Nat.exists_eq_add_one_of_ne_zero
        ((linearized_tokens_pos hcomplete).trans_le hfuel).ne'
      have hread := readStringExpr_node _ ⟨op, terms, true⟩ hfits he
      have htok := fetch_token _ after.tokens hfits
        (show e.tokens = before.tokens ++ Token.code _ :: after.tokens by rw [he]; rfl)
      rw [toExprFrom, htok]
      simp only [Option.bind_eq_bind, Option.bind_some, Token.ofCode?_code]
      rw [hread]
      rfl

theorem eq_linearized {expr : Expression} {e : LinearizedExpression}
    (hlinearize : expr.linearize .empty = some e) : e = expr.linearized := by
  rw [linearize_eq expr (complete_of_linearize hlinearize), empty_append] at hlinearize
  exact (Option.some.inj hlinearize).symm

theorem toExpr_of_linearize {expr : Expression} {e : LinearizedExpression}
    (hlinearize : expr.linearize .empty = some e) (hfits : e.Fits) :
    e.toExpr = some expr.pathAsExt := by
  have hcomplete := complete_of_linearize hlinearize
  have he := eq_linearized hlinearize
  have hfrom := toExprFrom_linearized expr hcomplete .empty .empty hfits
    (by rw [empty_append, append_empty, he]) (e.tokens.length + 1) (by rw [he]; omega)
  rw [toExpr, show (⟨0, 0, 0⟩ : Cursor) = LinearizedExpression.empty.position from rfl, hfrom]
  rfl

/-! ### What a path node loses -/

/-- The expressions of a tree, itself first. -/
def Expression.nodes : Expression → List Expression
  | compound op left right => compound op left right :: (left.nodes ++ right.nodes)
  | expr => [expr]

/-- Path nodes that no path satisfies: nothing to look for, and not a conjunction. -/
def Expression.PathsIdle (expr : Expression) : Prop :=
  ∀ str, path str ∈ expr.nodes → str.terms = [] ∧ str.op ≠ .containsAllStrings

theorem mem_nodes_self (expr : Expression) : expr ∈ expr.nodes := by
  cases expr <;> simp [Expression.nodes]

theorem nodes_subset {expr sub : Expression} (hsub : sub ∈ expr.nodes) :
    sub.nodes ⊆ expr.nodes := by
  induction expr with
  | compound op left right ihLeft ihRight =>
      rw [Expression.nodes, List.mem_cons, List.mem_append] at hsub
      intro node hnode
      rcases hsub with rfl | hleft | hright
      · exact hnode
      · exact List.mem_cons_of_mem _ (List.mem_append_left _ (ihLeft hleft hnode))
      · exact List.mem_cons_of_mem _ (List.mem_append_right _ (ihRight hright hnode))
  | _ =>
      rw [List.mem_singleton.mp hsub]
      exact fun _ hnode => hnode

/-- A part of a tree that can be linearised can be linearised, and needs no more room. -/
theorem linearize_sub {expr sub : Expression} (hcomplete : expr.Complete)
    (hfits : expr.linearized.Fits) (hsub : sub ∈ expr.nodes) :
    sub.Complete ∧ sub.linearized.Fits := by
  induction expr with
  | compound op left right ihLeft ihRight =>
      simp only [LinearizedExpression.Fits, linearized, List.length_cons,
        List.length_append] at hfits ihLeft ihRight
      rw [Expression.nodes, List.mem_cons, List.mem_append] at hsub
      rcases hsub with rfl | hleft | hright
      · refine ⟨hcomplete, ?_⟩
        simpa only [LinearizedExpression.Fits, linearized, List.length_cons,
          List.length_append] using hfits
      · exact ihLeft hcomplete.1 ⟨by omega, by omega, by omega⟩ hleft
      · exact ihRight hcomplete.2 ⟨by omega, by omega, by omega⟩ hright
  | _ =>
      rw [List.mem_singleton.mp hsub]
      exact ⟨hcomplete, hfits⟩

theorem Expression.PathsIdle.sub {expr sub : Expression} (hidle : expr.PathsIdle)
    (hsub : sub ∈ expr.nodes) : sub.PathsIdle :=
  fun str hstr => hidle str (nodes_subset hsub hstr)

theorem pathAsExt_eq_null_iff (expr : Expression) : expr.pathAsExt = .null ↔ expr = .null := by
  cases expr <;> simp [pathAsExt]

theorem evalStr_nil {str : StringExpression} (hterms : str.terms = [])
    (hop : str.op ≠ .containsAllStrings) (text : List UInt8) : str.evalStr text = false := by
  unfold StringExpression.evalStr
  split
  · exact absurd ‹_› hop
  · rw [hterms, List.any_nil]
  · rw [hterms, List.any_nil]

theorem eval_pathAsExt {expr : Expression} (hidle : expr.PathsIdle) (file : ExpFileEntry) :
    expr.pathAsExt.eval file = expr.eval file := by
  induction expr with
  | path str =>
      obtain ⟨hterms, hop⟩ := hidle str (List.mem_singleton_self _)
      rw [pathAsExt, Expression.eval, Expression.eval, evalStr_nil hterms hop,
        evalStr_nil hterms hop, ite_self]
  | compound op left right ihLeft ihRight =>
      have hleft := ihLeft (hidle.sub (by simp [Expression.nodes, mem_nodes_self]))
      have hright := ihRight (hidle.sub (by simp [Expression.nodes, mem_nodes_self]))
      simp only [pathAsExt, Expression.eval, hleft, hright, pathAsExt_eq_null_iff]
  | _ => rfl

section Contains

variable {same : UInt8 → UInt8 → Bool}

theorem startsWith_append (hrefl : ∀ ch, same ch ch = true) (term rest : List UInt8) :
    startsWith same (term ++ rest) term = true := by
  induction term with
  | nil => cases rest <;> rfl
  | cons ch term ih => rw [List.cons_append, startsWith, hrefl, ih, Bool.and_self]

theorem search_append (hrefl : ∀ ch, same ch ch = true) (term : List UInt8) {rest : List UInt8}
    (hrest : rest ≠ []) :
    ∀ before : List UInt8, search same (before ++ (term ++ rest)) term ≠ [] := by
  intro before
  induction before with
  | nil =>
      have hstart := startsWith_append hrefl term rest
      cases htext : term ++ rest with
      | nil => exact absurd (List.append_eq_nil_iff.mp htext).2 hrest
      | cons ch text =>
          rw [htext] at hstart
          rw [List.nil_append, search, if_pos hstart]
          exact List.cons_ne_nil ch text
  | cons ch before ih =>
      rw [List.cons_append, search]
      split
      · exact List.cons_ne_nil ch _
      · exact ih

end Contains

/-- A text contains every part of it that does not reach its end. -/
theorem strContains_append (before term : List UInt8) {rest : List UInt8} (hrest : rest ≠ [])
    (ignoreCase : Bool) :
    strContains (before ++ (term ++ rest)) term ignoreCase = true := by
  have hrefl : ∀ ch, (if ignoreCase then compareCharIC else (· == ·)) ch ch = true := by
    intro ch
    cases ignoreCase <;> simp [compareCharIC]
  have hfound := search_append hrefl term hrest before
  rw [strContains, Bool.not_eq_true', List.isEmpty_eq_false_iff]
  exact hfound

theorem strContains_flatten {terms : List (List UInt8)} {term : List UInt8} (hterm : term ∈ terms)
    (ignoreCase : Bool) : strContains (terms.flatten ++ [0]) term ignoreCase = true := by
  obtain ⟨first, last, rfl⟩ := List.append_of_mem hterm
  have htext : (first ++ term :: last).flatten ++ [0] =
      first.flatten ++ (term ++ (last.flatten ++ [0])) := by
    simp
  rw [htext]
  exact strContains_append _ _ (by simp) ignoreCase

/-- Some path satisfies a path node that is not idle. -/
theorem exists_evalStr {str : StringExpression}
    (hbusy : str.terms = [] → str.op = .containsAllStrings) :
    ∃ text, str.evalStr text = true := by
  rcases str with ⟨op, terms, ignoreCase⟩
  cases op with
  | containsAllStrings =>
      refine ⟨terms.flatten ++ [0], ?_⟩
      rw [StringExpression.evalStr, List.all_eq_true]
      exact fun term hterm => strContains_flatten hterm ignoreCase
  | containsAnyStrings =>
      cases terms with
      | nil => cases hbusy rfl
      | cons term terms =>
          refine ⟨(term :: terms).flatten ++ [0], ?_⟩
          rw [StringExpression.evalStr, List.any_eq_true]
          exact ⟨term, List.mem_cons_self, strContains_flatten List.mem_cons_self ignoreCase⟩
  | equalsString =>
      cases terms with
      | nil => cases hbusy rfl
      | cons term terms =>
          refine ⟨term, ?_⟩
          rw [StringExpression.evalStr, List.any_eq_true]
          exact ⟨term, List.mem_cons_self, beq_self_eq_true term⟩

/-- A file without a name in the given directory. -/
theorem length_namelessHash : (List.replicate 20 (0 : UInt8)).length = 20 := List.length_replicate

def namelessFile (path : List UInt8) : ExpFileEntry :=
  ⟨[], 0, 0, 0, path, ⟨List.replicate 20 0, length_namelessHash⟩⟩

theorem path_eval_ne {str : StringExpression}
    (hbusy : str.terms = [] → str.op = .containsAllStrings) :
    ∃ file, (pathAsExt (path str)).eval file ≠ (path str).eval file := by
  obtain ⟨text, htext⟩ := exists_evalStr hbusy
  refine ⟨namelessFile text, ?_⟩
  have hpath : (path str).eval (namelessFile text) = true := htext
  rw [hpath]
  exact Bool.false_ne_true

/-- The expression and each one inside it evaluate as before when their path nodes are idle, and only
then: the decoder builds an extension node from what a path node wrote. -/
theorem toExpr_linearize_eval_iff {expr : Expression} {e : LinearizedExpression}
    (hlinearize : expr.linearize .empty = some e) (hfits : e.Fits) :
    (∀ sub ∈ expr.nodes, ∃ e' expr', sub.linearize .empty = some e' ∧ e'.toExpr = some expr' ∧
      ∀ file, expr'.eval file = sub.eval file) ↔ expr.PathsIdle := by
  have hcomplete := complete_of_linearize hlinearize
  have he := eq_linearized hlinearize
  constructor
  · intro hsurvives str hstr
    by_contra hbusy
    obtain ⟨e', expr', hsub, htoExpr, heval⟩ := hsurvives (path str) hstr
    rw [he] at hfits
    have hsubFits := (linearize_sub hcomplete hfits hstr).2
    rw [toExpr_of_linearize hsub (eq_linearized hsub ▸ hsubFits)] at htoExpr
    obtain ⟨file, hne⟩ :=
      path_eval_ne fun hterms => by_contra fun hop => hbusy ⟨hterms, hop⟩
    apply hne
    rw [Option.some.inj htoExpr]
    exact heval file
  · intro hidle sub hsub
    rw [he] at hfits
    obtain ⟨hsubComplete, hsubFits⟩ := linearize_sub hcomplete hfits hsub
    have hlin : sub.linearize .empty = some sub.linearized := by
      rw [linearize_eq _ hsubComplete, empty_append]
    exact ⟨sub.linearized, sub.pathAsExt, hlin, toExpr_of_linearize hlin hsubFits,
      eval_pathAsExt (hidle.sub hsub)⟩

/-- A search for the letter `a` in the path or a name that is not `b`. -/
def sampleSearch : Expression :=
  .compound .orOp (.path ⟨.containsAnyStrings, [[97]], true⟩)
    (.compound .xorOp (.name ⟨.equalsString, [[98]], false⟩) (.size ⟨.greater, 0, 7⟩))

/-- The same with a path node that names nothing. -/
def idleSearch : Expression :=
  .compound .orOp (.path ⟨.containsAnyStrings, [], true⟩)
    (.compound .xorOp (.name ⟨.equalsString, [[98]], false⟩) (.size ⟨.greater, 0, 7⟩))

theorem toExpr_linearize_eval_idle :
    idleSearch.nodes.length = 5 ∧ ∀ sub ∈ idleSearch.nodes, ∃ e' expr',
      sub.linearize .empty = some e' ∧ e'.toExpr = some expr' ∧
        ∀ file, expr'.eval file = sub.eval file :=
  ⟨rfl, (toExpr_linearize_eval_iff (rfl : idleSearch.linearize .empty = some idleSearch.linearized)
    (by decide)).mpr (by
      intro str hstr
      simp only [idleSearch, Expression.nodes, List.cons_append, List.nil_append, List.mem_cons,
        List.not_mem_nil, or_false, reduceCtorEq, false_or, Expression.path.injEq] at hstr
      rw [hstr]
      decide)⟩

theorem toExpr_linearize_eval_path :
    ¬ ∀ (expr : Expression) (e : LinearizedExpression), expr.linearize .empty = some e → e.Fits →
      ∃ expr', e.toExpr = some expr' ∧ ∀ file, expr'.eval file = expr.eval file := by
  intro hsurvives
  have hlinearize : sampleSearch.linearize .empty = some sampleSearch.linearized := rfl
  have hfits : sampleSearch.linearized.Fits := by decide
  obtain ⟨expr', htoExpr, heval⟩ := hsurvives sampleSearch _ hlinearize hfits
  rw [toExpr_of_linearize hlinearize hfits, Option.some.injEq] at htoExpr
  have hfile := heval (namelessFile [97])
  rw [← htoExpr] at hfile
  have hbefore : sampleSearch.eval (namelessFile [97]) = true := by decide
  have hafter : sampleSearch.pathAsExt.eval (namelessFile [97]) = false := by decide
  rw [hbefore, hafter] at hfile
  cases hfile

end RetroShare.RegularExpression

import RetroShare.Foundation.Outcome
import RetroShare.Util.UntrustedExpression
import RetroShare.Util.Proof.Linearize

/-!
# What `toExpr` reads

The vectors of a packet are read inside exactly when they begin with the description of a whole
expression. Then the expression is evaluated without going through a null pointer.
-/

namespace RetroShare.RegularExpression

open Outcome

/-! ### Whole expressions -/

def Token.IsRel (tok : Token) : Prop := tok = .date ∨ tok = .pop ∨ tok = .size ∨ tok = .sizeMB

def Token.IsStr (tok : Token) : Prop := tok = .hash ∨ tok = .name ∨ tok = .path ∨ tok = .ext

/-- The vectors begin with the description of an expression, and these vectors are left. A token that
stands for nothing is a description, too. -/
inductive Begins : LinearizedExpression → LinearizedExpression → Prop
  | unknown {code : UInt8} {tokens ints strings} (hcode : Token.ofCode? code = none) :
      Begins ⟨code :: tokens, ints, strings⟩ ⟨tokens, ints, strings⟩
  | rel {tok : Token} {tokens op lv hv ints strings} (hrel : tok.IsRel) :
      Begins ⟨tok.code :: tokens, op :: lv :: hv :: ints, strings⟩ ⟨tokens, ints, strings⟩
  | str {tok : Token} {tokens op flag count ints terms strings} (hstr : tok.IsStr)
      (hterms : terms.length = LinearizedExpression.wanted count) :
      Begins ⟨tok.code :: tokens, op :: flag :: count :: ints, terms ++ strings⟩
        ⟨tokens, ints, strings⟩
  | comp {tokens op ints strings middle rest} (hleft : Begins ⟨tokens, ints, strings⟩ middle)
      (hright : Begins middle rest) :
      Begins ⟨Token.comp.code :: tokens, op :: ints, strings⟩ rest

/-- A whole expression at the beginning, with no more than the indices can count. -/
def BeginsWithExpression (e : LinearizedExpression) : Prop :=
  ∃ rest, Begins e rest ∧ e.tokens.length < 2 ^ 31 + rest.tokens.length ∧
    e.ints.length < 2 ^ 31 + rest.ints.length ∧ e.strings.length < 2 ^ 31 + rest.strings.length

theorem Begins.length {e rest : LinearizedExpression} (hbegins : Begins e rest) :
    rest.tokens.length < e.tokens.length ∧ rest.ints.length ≤ e.ints.length ∧
      rest.strings.length ≤ e.strings.length := by
  induction hbegins with
  | unknown hcode => simp
  | rel hrel =>
      simp only [List.length_cons]
      omega
  | str hstr hterms =>
      simp only [List.length_cons, List.length_append]
      omega
  | comp hleft hright ihLeft ihRight =>
      simp only [List.length_cons] at ihLeft ⊢
      omega

/-- What is left behind the three indices. -/
def LinearizedExpression.behind (e : LinearizedExpression) (cur : Cursor) : LinearizedExpression :=
  ⟨e.tokens.drop cur.tok, e.ints.drop cur.ints, e.strings.drop cur.strings⟩

def Cursor.Small (cur : Cursor) : Prop :=
  cur.tok < 2 ^ 31 ∧ cur.ints < 2 ^ 31 ∧ cur.strings < 2 ^ 31

/-! ### Single accesses -/

section Accesses

variable {α β : Type}

theorem fetch_eq_some_iff {values : List α} {n m : Nat} {value : α} :
    fetch values n = some (value, m) ↔
      n + 1 < 2 ^ 31 ∧ m = n + 1 ∧ values.drop n = value :: values.drop (n + 1) := by
  unfold fetch
  by_cases hsmall : n + 1 < 2 ^ 31
  · rw [if_pos hsmall, and_iff_right hsmall]
    constructor
    · intro hfetch
      obtain ⟨found, hfound, heq⟩ := Option.map_eq_some_iff.mp hfetch
      cases heq
      obtain ⟨hlt, hget⟩ := List.getElem?_eq_some_iff.mp hfound
      exact ⟨rfl, hget ▸ List.drop_eq_getElem_cons hlt⟩
    · rintro ⟨rfl, hdrop⟩
      have hget : values[n]? = some value := by
        rw [← List.head?_drop, hdrop, List.head?_cons]
      rw [hget, Option.map_some]
  · rw [if_neg hsmall]
    exact iff_of_false nofun fun h => hsmall h.1

theorem fetchMany_eq_some_iff {values : List α} {count : Nat} : ∀ {n m : Nat} {found : List α},
    n < 2 ^ 31 → (fetchMany values count n = some (found, m) ↔
      m < 2 ^ 31 ∧ m = n + count ∧ found.length = count ∧
        values.drop n = found ++ values.drop (n + count)) := by
  induction count with
  | zero =>
      intro n m found hn
      rw [fetchMany, Option.some.injEq, Prod.mk.injEq, List.length_eq_zero_iff]
      constructor
      · rintro ⟨rfl, rfl⟩
        exact ⟨hn, rfl, rfl, rfl⟩
      · rintro ⟨_, rfl, rfl, _⟩
        exact ⟨rfl, rfl⟩
  | succ count ih =>
      intro n m found hn
      have hshift : n + (count + 1) = n + 1 + count := by omega
      rw [fetchMany, hshift]
      simp only [Option.bind_eq_bind, Option.bind_eq_some_iff, Option.pure_def, Option.some.injEq,
        Prod.exists, Prod.mk.injEq]
      constructor
      · rintro ⟨value, n', hfetch, rest, m', hrest, rfl, rfl⟩
        obtain ⟨hsmall, rfl, hdrop⟩ := fetch_eq_some_iff.mp hfetch
        obtain ⟨hm, rfl, hlength, hdrops⟩ := (ih hsmall).mp hrest
        exact ⟨hm, rfl, congrArg (· + 1) hlength, by rw [hdrop, hdrops]; rfl⟩
      · rintro ⟨hm, rfl, hlength, hdrop⟩
        cases found with
        | nil => exact absurd hlength (Nat.succ_ne_zero count).symm
        | cons value rest =>
            have htail : values.drop (n + 1) = rest ++ values.drop (n + 1 + count) := by
              rw [← List.drop_drop, hdrop]
              rfl
            refine ⟨value, n + 1, fetch_eq_some_iff.mpr ⟨by omega, rfl, ?_⟩, rest, n + 1 + count,
              (ih (by omega)).mpr ⟨hm, rfl, Nat.succ.inj hlength, htail⟩, rfl, rfl⟩
            rw [hdrop, htail]
            rfl

theorem inside_bind_ok {access : Option α} {next : α → Except Fault β} {b : β} :
    (inside access >>= next) = .ok b ↔ ∃ a, access = some a ∧ next a = .ok b := by
  cases access with
  | none => exact iff_of_false nofun fun ⟨a, h, _⟩ => nomatch h
  | some a => exact ⟨fun h => ⟨a, rfl, h⟩, fun ⟨_, heq, h⟩ => Option.some.inj heq ▸ h⟩

theorem map_ok_iff {call : Except Fault α} {f : α → β} {b : β} :
    call.map f = .ok b ↔ ∃ a, call = .ok a ∧ f a = b := by
  cases call with
  | error fault => exact iff_of_false nofun fun ⟨a, h, _⟩ => nomatch h
  | ok a =>
      constructor
      · intro h
        exact ⟨a, rfl, Except.ok.inj h⟩
      · rintro ⟨a', heq, rfl⟩
        cases heq
        rfl

theorem bind_ok_iff {call : Except Fault α} {next : α → Except Fault β} {b : β} :
    (call >>= next) = .ok b ↔ ∃ a, call = .ok a ∧ next a = .ok b := by
  cases call with
  | error fault => exact iff_of_false nofun fun ⟨a, h, _⟩ => nomatch h
  | ok a => exact ⟨fun h => ⟨a, rfl, h⟩, fun ⟨_, heq, h⟩ => Except.ok.inj heq ▸ h⟩

end Accesses

theorem Token.eq_code {code : UInt8} {tok : Token} (hcode : Token.ofCode? code = some tok) :
    code = tok.code := by
  unfold Token.ofCode? at hcode
  split at hcode <;> cases hcode <;> rfl

namespace LinearizedExpression

variable {e : LinearizedExpression} {cur cur' : Cursor}

/-! ### Operands -/

theorem readRawRel_ok_iff {rel : RawRelExpression} : e.readRawRel cur = .ok (rel, cur') ↔
    ∃ op lv hv, cur.ints + 3 < 2 ^ 31 ∧ e.ints.drop cur.ints = op :: lv :: hv :: e.ints.drop (cur.ints + 3) ∧
      rel = ⟨op, lv.toInt32, hv.toInt32⟩ ∧ cur' = { cur with ints := cur.ints + 3 } := by
  unfold readRawRel
  simp only [inside_bind_ok, Prod.exists, fetch_eq_some_iff]
  constructor
  · rintro ⟨op, n, ⟨_, rfl, hop⟩, lv, n, ⟨_, rfl, hlv⟩, hv, n, ⟨hsmall, rfl, hhv⟩, heq⟩
    cases heq
    exact ⟨op, lv, hv, hsmall, by rw [hop, hlv, hhv], rfl, rfl⟩
  · rintro ⟨op, lv, hv, hsmall, hdrop, rfl, rfl⟩
    have hone : e.ints.drop (cur.ints + 1) = lv :: hv :: e.ints.drop (cur.ints + 3) := by
      rw [← List.drop_drop, hdrop]
      rfl
    have htwo : e.ints.drop (cur.ints + 1 + 1) = hv :: e.ints.drop (cur.ints + 3) := by
      rw [← List.drop_drop, hone]
      rfl
    exact ⟨op, _, ⟨by omega, rfl, by rw [hdrop, hone]⟩, lv, _, ⟨by omega, rfl, by rw [hone, htwo]⟩, hv, _,
      ⟨by omega, rfl, htwo⟩, rfl⟩

theorem readRawString_ok_iff {str : RawStringExpression} (hcur : cur.strings < 2 ^ 31) :
    e.readRawString cur = .ok (str, cur') ↔
    ∃ op flag count terms, cur.ints + 3 < 2 ^ 31 ∧
      e.ints.drop cur.ints = op :: flag :: count :: e.ints.drop (cur.ints + 3) ∧
      cur.strings + wanted count < 2 ^ 31 ∧ terms.length = wanted count ∧
      e.strings.drop cur.strings = terms ++ e.strings.drop (cur.strings + wanted count) ∧
      str = ⟨op, terms, flag != 0⟩ ∧
      cur' = { cur with ints := cur.ints + 3, strings := cur.strings + wanted count } := by
  unfold readRawString
  simp only [inside_bind_ok, Prod.exists, fetch_eq_some_iff, fetchMany_eq_some_iff hcur]
  constructor
  · rintro ⟨op, n, ⟨_, rfl, hop⟩, flag, n, ⟨_, rfl, hflag⟩, count, n, ⟨hsmall, rfl, hcount⟩, terms, m,
      ⟨hm, rfl, hlength, hterms⟩, heq⟩
    cases heq
    exact ⟨op, flag, count, terms, hsmall, by rw [hop, hflag, hcount], hm, hlength, hterms, rfl, rfl⟩
  · rintro ⟨op, flag, count, terms, hsmall, hdrop, hm, hlength, hterms, rfl, rfl⟩
    have hone : e.ints.drop (cur.ints + 1) = flag :: count :: e.ints.drop (cur.ints + 3) := by
      rw [← List.drop_drop, hdrop]
      rfl
    have htwo : e.ints.drop (cur.ints + 1 + 1) = count :: e.ints.drop (cur.ints + 3) := by
      rw [← List.drop_drop, hone]
      rfl
    exact ⟨op, _, ⟨by omega, rfl, by rw [hdrop, hone]⟩, flag, _, ⟨by omega, rfl, by rw [hone, htwo]⟩,
      count, _, ⟨by omega, rfl, htwo⟩, terms, _, ⟨hm, rfl, hlength, hterms⟩, rfl⟩

/-! ### What has been read -/

section Read

variable {expr : RawExpression} {tok : Token}

theorem begins_rel (node : RawRelExpression → RawExpression) (hrel : tok.IsRel) (hcur : cur.Small)
    (hnext : cur.tok + 1 < 2 ^ 31)
    (htok : e.tokens.drop cur.tok = tok.code :: e.tokens.drop (cur.tok + 1))
    (hread : (e.readRawRel { cur with tok := cur.tok + 1 }).map (fun (rel, cur) => (node rel, cur)) =
      .ok (expr, cur')) : Begins (e.behind cur) (e.behind cur') ∧ cur'.Small := by
  obtain ⟨⟨rel, cur₁⟩, hrel', heq⟩ := map_ok_iff.mp hread
  obtain ⟨op, lv, hv, hsmall, hdrop, rfl, rfl⟩ := readRawRel_ok_iff.mp hrel'
  cases heq
  refine ⟨?_, hnext, hsmall, hcur.2.2⟩
  unfold behind
  dsimp only at hdrop ⊢
  rw [htok, hdrop]
  exact .rel hrel

theorem begins_str (node : RawStringExpression → RawExpression) (hstr : tok.IsStr) (hcur : cur.Small)
    (hnext : cur.tok + 1 < 2 ^ 31)
    (htok : e.tokens.drop cur.tok = tok.code :: e.tokens.drop (cur.tok + 1))
    (hread : (e.readRawString { cur with tok := cur.tok + 1 }).map (fun (str, cur) => (node str, cur)) =
      .ok (expr, cur')) : Begins (e.behind cur) (e.behind cur') ∧ cur'.Small := by
  have hstrings : ({ cur with tok := cur.tok + 1 } : Cursor).strings < 2 ^ 31 := hcur.2.2
  obtain ⟨⟨str, cur₁⟩, hstr', heq⟩ := map_ok_iff.mp hread
  obtain ⟨op, flag, count, terms, hsmall, hdrop, hm, hlength, hterms, rfl, rfl⟩ :=
    (readRawString_ok_iff hstrings).mp hstr'
  cases heq
  refine ⟨?_, hnext, hsmall, hm⟩
  unfold behind
  dsimp only at hdrop hterms ⊢
  rw [htok, hdrop, hterms]
  exact .str hstr hlength

/-- Whatever has been built was described there. -/
theorem begins_of_toRawFrom {depth : Nat} : ∀ {cur cur' : Cursor} {expr : RawExpression}, cur.Small →
    e.toRawFrom depth cur = .ok (expr, cur') → Begins (e.behind cur) (e.behind cur') ∧ cur'.Small := by
  induction depth with
  | zero => exact fun _ h => nomatch h
  | succ depth ih =>
      intro cur cur' expr hcur hread
      rw [toRawFrom, inside_bind_ok] at hread
      obtain ⟨⟨code, n⟩, hfetch, hread⟩ := hread
      obtain ⟨hnext, rfl, htok⟩ := fetch_eq_some_iff.mp hfetch
      dsimp only at hread
      cases hcode : Token.ofCode? code with
      | none =>
          rw [hcode] at hread
          cases hread
          refine ⟨?_, hnext, hcur.2⟩
          unfold behind
          rw [htok]
          exact .unknown hcode
      | some tok =>
          rw [Token.eq_code hcode] at htok
          rw [hcode] at hread
          cases tok with
          | date => exact begins_rel .date (.inl rfl) hcur hnext htok hread
          | pop => exact begins_rel .pop (.inr (.inl rfl)) hcur hnext htok hread
          | size => exact begins_rel .size (.inr (.inr (.inl rfl))) hcur hnext htok hread
          | sizeMB => exact begins_rel .sizeMB (.inr (.inr (.inr rfl))) hcur hnext htok hread
          | hash =>
              exact begins_str (fun str => .hash str.op str.terms) (.inl rfl) hcur hnext htok hread
          | name => exact begins_str .name (.inr (.inl rfl)) hcur hnext htok hread
          | path => exact begins_str .ext (.inr (.inr (.inl rfl))) hcur hnext htok hread
          | ext => exact begins_str .ext (.inr (.inr (.inr rfl))) hcur hnext htok hread
          | comp =>
              dsimp only at hread
              rw [inside_bind_ok] at hread
              obtain ⟨⟨op, n⟩, hop, hread⟩ := hread
              obtain ⟨hints, rfl, hdrop⟩ := fetch_eq_some_iff.mp hop
              obtain ⟨⟨e1, cur₁⟩, hleft, hread⟩ := bind_ok_iff.mp hread
              obtain ⟨⟨e2, cur₂⟩, hright, hread⟩ := bind_ok_iff.mp hread
              cases hread
              have hstart : Cursor.Small ⟨cur.tok + 1, cur.ints + 1, cur.strings⟩ :=
                ⟨hnext, hints, hcur.2.2⟩
              obtain ⟨hfirst, hcur₁⟩ := ih hstart hleft
              obtain ⟨hsecond, hcur₂⟩ := ih hcur₁ hright
              refine ⟨?_, hcur₂⟩
              rw [behind, htok, hdrop]
              exact .comp hfirst hsecond

end Read

/-! ### What can be read -/

section CanRead

variable {tok : Token} {rest : LinearizedExpression}

/-- The outcome of reading a description: the indices stand at what is left of the vectors. -/
def EndsAt (e : LinearizedExpression) (cur : Cursor) (before rest : LinearizedExpression)
    (result : RawExpression × Cursor) : Prop :=
  e.behind result.2 = rest ∧ result.2.Small ∧
    result.2.tok + rest.tokens.length = cur.tok + before.tokens.length ∧
    result.2.ints + rest.ints.length = cur.ints + before.ints.length ∧
    result.2.strings + rest.strings.length = cur.strings + before.strings.length

theorem inside_some_bind {α β : Type} (a : α) (next : α → Except Fault β) :
    (inside (some a) >>= next) = next a := rfl

theorem ok_bind {α β : Type} (a : α) (next : α → Except Fault β) : (.ok a >>= next) = next a := rfl

theorem drop_succ {α : Type} {values rest : List α} {n : Nat} {value : α}
    (hdrop : values.drop n = value :: rest) : values.drop (n + 1) = rest := by
  rw [← List.drop_drop, hdrop]
  rfl

theorem toRawFrom_of_begins {before : LinearizedExpression} (hbegins : Begins before rest) :
    ∀ {depth : Nat} {cur : Cursor}, e.behind cur = before → cur.Small →
      cur.tok + before.tokens.length < 2 ^ 31 + rest.tokens.length →
      cur.ints + before.ints.length < 2 ^ 31 + rest.ints.length →
      cur.strings + before.strings.length < 2 ^ 31 + rest.strings.length →
      before.tokens.length ≤ depth + rest.tokens.length →
      Yields (e.toRawFrom depth cur) (e.EndsAt cur before rest) := by
  induction hbegins with
  | @unknown code tokens ints strings hcode =>
      intro depth cur hbehind hcur htokens hints hstrings hdepth
      obtain ⟨htok, hint, hstring⟩ := LinearizedExpression.mk.inj hbehind
      simp only [List.length_cons] at htokens hdepth
      obtain ⟨depth, rfl⟩ := Nat.exists_eq_add_one_of_ne_zero (show depth ≠ 0 by omega)
      have hfetch : fetch e.tokens cur.tok = some (code, cur.tok + 1) :=
        fetch_eq_some_iff.mpr ⟨by omega, rfl, by rw [htok, drop_succ htok]⟩
      rw [toRawFrom, hfetch, inside_some_bind]
      dsimp only
      rw [hcode]
      refine .pure ⟨?_, ⟨by dsimp only; omega, hcur.2⟩, ?_, rfl, rfl⟩
      · rw [behind, drop_succ htok, hint, hstring]
      · simp only [List.length_cons]
        omega
  | @rel tok tokens op lv hv ints strings hrel =>
      intro depth cur hbehind hcur htokens hints hstrings hdepth
      obtain ⟨htok, hint, hstring⟩ := LinearizedExpression.mk.inj hbehind
      simp only [List.length_cons] at htokens hints hdepth
      obtain ⟨depth, rfl⟩ := Nat.exists_eq_add_one_of_ne_zero (show depth ≠ 0 by omega)
      have hfetch : fetch e.tokens cur.tok = some (tok.code, cur.tok + 1) :=
        fetch_eq_some_iff.mpr ⟨by omega, rfl, by rw [htok, drop_succ htok]⟩
      have hthree : e.ints.drop (cur.ints + 3) = ints := drop_succ (drop_succ (drop_succ hint))
      have hread : e.readRawRel { cur with tok := cur.tok + 1 } =
          .ok (⟨op, lv.toInt32, hv.toInt32⟩, ⟨cur.tok + 1, cur.ints + 3, cur.strings⟩) :=
        readRawRel_ok_iff.mpr ⟨op, lv, hv, by dsimp only; omega, by dsimp only; rw [hint, hthree], rfl, rfl⟩
      have hend : ∀ expr, e.EndsAt cur ⟨tok.code :: tokens, op :: lv :: hv :: ints, strings⟩
          ⟨tokens, ints, strings⟩ (expr, ⟨cur.tok + 1, cur.ints + 3, cur.strings⟩) := by
        intro expr
        refine ⟨?_, ⟨by dsimp only; omega, by dsimp only; omega, hcur.2.2⟩, ?_, ?_, rfl⟩
        · rw [behind, drop_succ htok, hthree, hstring]
        · simp only [List.length_cons]
          omega
        · simp only [List.length_cons]
          omega
      rw [toRawFrom, hfetch, inside_some_bind]
      dsimp only
      rw [Token.ofCode?_code]
      rcases hrel with rfl | rfl | rfl | rfl <;>
      · dsimp only
        rw [hread]
        exact .ok (hend _)
  | @str tok tokens op flag count ints terms strings hstr hterms =>
      intro depth cur hbehind hcur htokens hints hstrings hdepth
      obtain ⟨htok, hint, hstring⟩ := LinearizedExpression.mk.inj hbehind
      simp only [List.length_cons, List.length_append] at htokens hints hstrings hdepth
      obtain ⟨depth, rfl⟩ := Nat.exists_eq_add_one_of_ne_zero (show depth ≠ 0 by omega)
      have hfetch : fetch e.tokens cur.tok = some (tok.code, cur.tok + 1) :=
        fetch_eq_some_iff.mpr ⟨by omega, rfl, by rw [htok, drop_succ htok]⟩
      have hthree : e.ints.drop (cur.ints + 3) = ints := drop_succ (drop_succ (drop_succ hint))
      have hleft : e.strings.drop (cur.strings + wanted count) = strings := by
        rw [← List.drop_drop, hstring, ← hterms, List.drop_left]
      have hplace : ({ cur with tok := cur.tok + 1 } : Cursor).strings < 2 ^ 31 := hcur.2.2
      have hread : e.readRawString { cur with tok := cur.tok + 1 } =
          .ok (⟨op, terms, flag != 0⟩,
            ⟨cur.tok + 1, cur.ints + 3, cur.strings + wanted count⟩) :=
        (readRawString_ok_iff hplace).mpr ⟨op, flag, count, terms, by dsimp only; omega,
          by dsimp only; rw [hint, hthree], by dsimp only; omega, hterms,
          by dsimp only; rw [hstring, hleft], rfl, rfl⟩
      have hend : ∀ expr, e.EndsAt cur
          ⟨tok.code :: tokens, op :: flag :: count :: ints, terms ++ strings⟩ ⟨tokens, ints, strings⟩
          (expr, ⟨cur.tok + 1, cur.ints + 3, cur.strings + wanted count⟩) := by
        intro expr
        refine ⟨?_, ⟨by dsimp only; omega, by dsimp only; omega, by dsimp only; omega⟩, ?_, ?_, ?_⟩
        · rw [behind, drop_succ htok, hthree, hleft]
        · simp only [List.length_cons]
          omega
        · simp only [List.length_cons]
          omega
        · simp only [List.length_append]
          omega
      rw [toRawFrom, hfetch, inside_some_bind]
      dsimp only
      rw [Token.ofCode?_code]
      rcases hstr with rfl | rfl | rfl | rfl <;>
      · dsimp only
        rw [hread]
        exact .ok (hend _)
  | @comp tokens op ints strings middle rest hleft hright ihLeft ihRight =>
      intro depth cur hbehind hcur htokens hints hstrings hdepth
      obtain ⟨htok, hint, hstring⟩ := LinearizedExpression.mk.inj hbehind
      have hlengthLeft := hleft.length
      have hlengthRight := hright.length
      dsimp only at htokens hints hstrings hdepth hlengthLeft
      simp only [List.length_cons] at htokens hints hdepth
      obtain ⟨depth, rfl⟩ := Nat.exists_eq_add_one_of_ne_zero (show depth ≠ 0 by omega)
      have hfetch : fetch e.tokens cur.tok = some (Token.comp.code, cur.tok + 1) :=
        fetch_eq_some_iff.mpr ⟨by omega, rfl, by rw [htok, drop_succ htok]⟩
      have hop : fetch e.ints cur.ints = some (op, cur.ints + 1) :=
        fetch_eq_some_iff.mpr ⟨by omega, rfl, by rw [hint, drop_succ hint]⟩
      have hstart : e.behind ⟨cur.tok + 1, cur.ints + 1, cur.strings⟩ = ⟨tokens, ints, strings⟩ := by
        rw [behind, drop_succ htok, drop_succ hint, hstring]
      rw [toRawFrom, hfetch, inside_some_bind]
      dsimp only
      rw [Token.ofCode?_code]
      dsimp only
      rw [hop, inside_some_bind]
      dsimp only
      refine (ihLeft hstart ⟨by dsimp only; omega, by dsimp only; omega, hcur.2.2⟩ (by dsimp only; omega)
        (by dsimp only; omega) (by dsimp only; omega) (by dsimp only; omega)).bind ?_
      rintro ⟨e1, cur₁⟩ ⟨hbehind₁, hsmall₁, htok₁, hints₁, hstrings₁⟩
      dsimp only at htok₁ hints₁ hstrings₁
      refine (ihRight hbehind₁ hsmall₁ (by dsimp only; omega) (by dsimp only; omega)
        (by dsimp only; omega) (by omega)).bind ?_
      rintro ⟨e2, cur₂⟩ ⟨hbehind₂, hsmall₂, htok₂, hints₂, hstrings₂⟩
      dsimp only at htok₂ hints₂ hstrings₂
      refine .pure ⟨hbehind₂, hsmall₂, ?_, ?_, ?_⟩
      · simp only [List.length_cons]
        omega
      · simp only [List.length_cons]
        omega
      · dsimp only
        omega

end CanRead

/-! ### The recursion ends -/

/-- A call from here on goes past a token, or stops at an access outside of a vector. -/
def Moves (e : LinearizedExpression) (cur : Cursor) {α : Type} :
    Except Fault (α × Cursor) → Prop
  | .ok result => cur.tok < result.2.tok ∧ result.2.tok ≤ e.tokens.length
  | .error fault => fault = .outside

section Moves

variable {α β : Type}

theorem moves_inside {access : Option α} {next : α → Except Fault (β × Cursor)}
    (hnext : ∀ a, access = some a → e.Moves cur (next a)) :
    e.Moves cur (inside access >>= next) := by
  cases access with
  | none => exact rfl
  | some a => exact hnext a rfl

theorem moves_map {call : Except Fault (α × Cursor)} (hcall : e.Moves cur call) (node : α → β) :
    e.Moves cur (call.map fun (value, cur) => (node value, cur)) := by
  cases call with
  | error fault => exact hcall
  | ok result => exact hcall

theorem moves_bind {call : Except Fault (α × Cursor)} {next : α × Cursor → Except Fault (β × Cursor)}
    {start : Cursor} (hcall : e.Moves start call)
    (hnext : ∀ value cur₁, start.tok < cur₁.tok → cur₁.tok ≤ e.tokens.length →
      e.Moves cur (next (value, cur₁))) : e.Moves cur (call >>= next) := by
  cases call with
  | error fault => exact hcall
  | ok result => exact hnext result.1 result.2 hcall.1 hcall.2

theorem moves_readRawRel (hcur : cur.tok < e.tokens.length) :
    e.Moves cur (e.readRawRel { cur with tok := cur.tok + 1 }) := by
  unfold readRawRel
  exact moves_inside fun _ _ => moves_inside fun _ _ => moves_inside fun _ _ =>
    ⟨Nat.lt_succ_self _, hcur⟩

theorem moves_readRawString (hcur : cur.tok < e.tokens.length) :
    e.Moves cur (e.readRawString { cur with tok := cur.tok + 1 }) := by
  unfold readRawString
  exact moves_inside fun _ _ => moves_inside fun _ _ => moves_inside fun _ _ => moves_inside fun _ _ =>
    ⟨Nat.lt_succ_self _, hcur⟩

/-- Each call reads a token, so the calls are no deeper than there are tokens left. -/
theorem moves_toRawFrom {depth : Nat} : ∀ {cur : Cursor}, cur.tok ≤ e.tokens.length →
    e.tokens.length < depth + cur.tok → e.Moves cur (e.toRawFrom depth cur) := by
  induction depth with
  | zero =>
      intro cur hcur hdepth
      omega
  | succ depth ih =>
      intro cur hcur hdepth
      rw [toRawFrom]
      refine moves_inside fun ⟨code, n⟩ hfetch => ?_
      obtain ⟨_, rfl, htok⟩ := fetch_eq_some_iff.mp hfetch
      have hlt : cur.tok < e.tokens.length := by
        have hlength := congrArg List.length htok
        rw [List.length_drop, List.length_cons] at hlength
        omega
      dsimp only
      cases Token.ofCode? code with
      | none => exact ⟨Nat.lt_succ_self _, hlt⟩
      | some tok =>
          cases tok with
          | date => exact moves_map (moves_readRawRel hlt) RawExpression.date
          | pop => exact moves_map (moves_readRawRel hlt) RawExpression.pop
          | size => exact moves_map (moves_readRawRel hlt) RawExpression.size
          | sizeMB => exact moves_map (moves_readRawRel hlt) RawExpression.sizeMB
          | hash =>
              exact moves_map (moves_readRawString hlt) fun str => RawExpression.hash str.op str.terms
          | name => exact moves_map (moves_readRawString hlt) RawExpression.name
          | path => exact moves_map (moves_readRawString hlt) RawExpression.ext
          | ext => exact moves_map (moves_readRawString hlt) RawExpression.ext
          | comp =>
              refine moves_inside fun ⟨op, n⟩ _ => ?_
              have hleft : e.Moves ⟨cur.tok + 1, n, cur.strings⟩
                  (e.toRawFrom depth ⟨cur.tok + 1, n, cur.strings⟩) :=
                ih hlt (by dsimp only; omega)
              refine moves_bind hleft fun e1 cur₁ hcur₁ hle₁ => ?_
              dsimp only at hcur₁
              have hright : e.Moves cur₁ (e.toRawFrom depth cur₁) := ih hle₁ (by omega)
              refine moves_bind hright fun e2 cur₂ hcur₂ hle₂ => ?_
              exact ⟨show cur.tok < cur₂.tok by omega, hle₂⟩

end Moves

theorem toRaw_ne_unfinished (e : LinearizedExpression) : e.toRaw ≠ .error .unfinished := by
  have hmoves : e.Moves ⟨0, 0, 0⟩ (e.toRawFrom (e.tokens.length + 1) ⟨0, 0, 0⟩) :=
    moves_toRawFrom (Nat.zero_le _) (Nat.lt_succ_self _)
  intro hraw
  unfold toRaw at hraw
  cases hcall : e.toRawFrom (e.tokens.length + 1) ⟨0, 0, 0⟩ with
  | ok result =>
      rw [hcall] at hraw
      cases hraw
  | error fault =>
      rw [hcall] at hraw hmoves
      cases hraw
      cases hmoves

end LinearizedExpression

/-! ### Malformed expressions -/

/-- `eval` looks for null pointers before it goes on. -/
theorem RawExpression.eval_isSome {expr : RawExpression} (hexpr : expr ≠ .null) (file : ExpFileEntry) :
    (expr.eval file).isSome = true := by
  induction expr with
  | null => exact absurd rfl hexpr
  | date rel | pop rel | size rel | sizeMB rel => rfl
  | hash op terms => rfl
  | name str | ext str => rfl
  | compound op left right ihLeft ihRight =>
      rw [eval]
      split
      · rfl
      · next hnull =>
          rw [not_or] at hnull
          obtain ⟨l, hl⟩ := Option.isSome_iff_exists.mp (ihLeft hnull.1)
          obtain ⟨r, hr⟩ := Option.isSome_iff_exists.mp (ihRight hnull.2)
          rw [hl, hr]
          split
          · cases l <;> rfl
          · cases l <;> rfl
          · rfl
          · rfl

/-- The search comes to an end, stays inside of the vectors, and evaluates what it has built, if that
is no null pointer, on every file. -/
def Handled (e : LinearizedExpression) : Prop :=
  ∃ expr, e.toRaw = .ok expr ∧ (expr = .null ∨ ∀ file, (expr.eval file).isSome = true)

/-- **What is handled.** The recursion always ends; the vectors are read inside exactly when they
begin with the description of a whole expression. -/
theorem handled_iff (e : LinearizedExpression) :
    e.toRaw ≠ .error .unfinished ∧ (Handled e ↔ BeginsWithExpression e) := by
  refine ⟨e.toRaw_ne_unfinished, ?_, ?_⟩
  · rintro ⟨expr, hraw, _⟩
    obtain ⟨⟨_, cur⟩, hcall, rfl⟩ := map_ok_iff.mp hraw
    have hstart : Cursor.Small ⟨0, 0, 0⟩ := ⟨by decide, by decide, by decide⟩
    obtain ⟨hbegins, htok, hints, hstrings⟩ := LinearizedExpression.begins_of_toRawFrom hstart hcall
    refine ⟨e.behind cur, hbegins, ?_, ?_, ?_⟩
    all_goals
      rw [LinearizedExpression.behind, List.length_drop]
      omega
  · rintro ⟨rest, hbegins, htokens, hints, hstrings⟩
    have hstart : Cursor.Small ⟨0, 0, 0⟩ := ⟨by decide, by decide, by decide⟩
    obtain ⟨⟨expr, cur⟩, hcall, _⟩ := LinearizedExpression.toRawFrom_of_begins hbegins
      (show e.behind ⟨0, 0, 0⟩ = e from rfl) hstart (by dsimp only; omega) (by dsimp only; omega)
      (by dsimp only; omega)
      (show e.tokens.length ≤ e.tokens.length + 1 + rest.tokens.length by omega)
    refine ⟨expr, map_ok_iff.mpr ⟨_, hcall, rfl⟩, ?_⟩
    by_cases hnull : expr = .null
    · exact .inl hnull
    · exact .inr fun file => RawExpression.eval_isSome hnull file

/-- A packet of three empty vectors. -/
theorem handled_counterexample :
    ¬∀ packet reader e, deserialize packet reader = some e → Handled e := by
  intro hall
  have hempty : deserialize ⟨fun _ => 0, 12⟩ ⟨0, []⟩ = some ⟨[], [], []⟩ := by decide
  obtain ⟨expr, hraw, _⟩ := hall _ _ _ hempty
  cases hraw

/-! ### Known operators -/

def RawRelExpression.typed (rel : RawRelExpression) : Option RelExpression :=
  (RelOperator.ofCode? rel.op).map fun op => ⟨op, rel.lowerValue, rel.higherValue⟩

def RawStringExpression.typed (str : RawStringExpression) : Option StringExpression :=
  (StringOperator.ofCode? str.op).map fun op => ⟨op, str.terms, str.ignoreCase⟩

/-- The expression, where all codes name operators. -/
def RawExpression.typed : RawExpression → Option Expression
  | null => some .null
  | date rel => rel.typed.map .date
  | pop rel => rel.typed.map .pop
  | size rel => rel.typed.map .size
  | sizeMB rel => rel.typed.map .sizeMB
  | hash op terms => (StringOperator.ofCode? op).map fun op => .hash op terms
  | name str => str.typed.map .name
  | ext str => str.typed.map .ext
  | compound op left right => do
      let op ← LogicalOperator.ofCode? op
      let left ← left.typed
      let right ← right.typed
      return .compound op left right

namespace LinearizedExpression

/-- The outcome of a call as the other model of `toExpr` has it. -/
def typedResult (call : Except Fault (RawExpression × Cursor)) : Option (Expression × Cursor) :=
  call.toOption.bind fun result => result.1.typed.map (·, result.2)

theorem toOption_bind {α β : Type} (call : Except Fault α) (next : α → Except Fault β) :
    (call >>= next).toOption = call.toOption.bind fun value => (next value).toOption := by
  cases call <;> rfl

theorem toOption_map {α β : Type} (call : Except Fault α) (f : α → β) :
    (call.map f).toOption = call.toOption.map f := by
  cases call <;> rfl

theorem toOption_inside {α : Type} (access : Option α) : (inside access).toOption = access := by
  cases access <;> rfl

theorem toOption_pure {α : Type} (value : α) : (pure value : Except Fault α).toOption = some value := rfl

theorem readRelExpr_eq_typed (e : LinearizedExpression) (cur : Cursor) : e.readRelExpr cur =
    (e.readRawRel cur).toOption.bind fun result => result.1.typed.map (·, result.2) := by
  unfold readRelExpr readRawRel RawRelExpression.typed
  simp only [toOption_bind, toOption_inside, toOption_pure, Option.bind_eq_bind, Option.bind_assoc,
    Option.bind_some, Option.pure_def, Option.map_eq_bind]
  rfl

theorem readStringExpr_eq_typed (e : LinearizedExpression) (cur : Cursor) : e.readStringExpr cur =
    (e.readRawString cur).toOption.bind fun result => result.1.typed.map (·, result.2) := by
  unfold readStringExpr readRawString RawStringExpression.typed
  simp only [toOption_bind, toOption_inside, toOption_pure, Option.bind_eq_bind, Option.bind_assoc,
    Option.bind_some, Option.pure_def, Option.map_eq_bind]
  refine congrArg _ (funext fun op => ?_)
  cases StringOperator.ofCode? op.1 with
  | none => simp
  | some op => rfl

/-- A node whose operands are typed one by one. -/
theorem map_eq_typedResult {Operand RawOperand : Type} {read : Option (Operand × Cursor)}
    {readRaw : Except Fault (RawOperand × Cursor)} {typed : RawOperand → Option Operand}
    (hread : read = readRaw.toOption.bind fun result => (typed result.1).map (·, result.2))
    (node : Operand → Expression) (rawNode : RawOperand → RawExpression)
    (hnode : ∀ operand, (rawNode operand).typed = (typed operand).map node) :
    (read.map fun (operand, cur) => (node operand, cur)) =
      typedResult (readRaw.map fun (operand, cur) => (rawNode operand, cur)) := by
  rw [hread, typedResult, toOption_map, Option.map_bind, Option.bind_map]
  refine congrArg _ (funext fun result => ?_)
  rw [Function.comp_apply, Function.comp_apply, hnode, Option.map_map, Option.map_map]
  rfl

/-- **Where all codes name operators** both models of `toExpr` agree; elsewhere the other one has no
outcome. -/
theorem toExprFrom_eq (e : LinearizedExpression) {depth : Nat} : ∀ cur : Cursor,
    e.toExprFrom depth cur = typedResult (e.toRawFrom depth cur) := by
  induction depth with
  | zero => exact fun _ => rfl
  | succ depth ih =>
      intro cur
      rw [toExprFrom, toRawFrom, typedResult, toOption_bind, toOption_inside]
      simp only [Option.bind_eq_bind, Option.bind_assoc]
      refine congrArg _ (funext fun read => ?_)
      have hrel := e.readRelExpr_eq_typed { cur with tok := read.2 }
      have hstr := e.readStringExpr_eq_typed { cur with tok := read.2 }
      cases Token.ofCode? read.1 with
      | none => rfl
      | some tok =>
          cases tok with
          | date => exact map_eq_typedResult hrel .date .date fun _ => rfl
          | pop => exact map_eq_typedResult hrel .pop .pop fun _ => rfl
          | size => exact map_eq_typedResult hrel .size .size fun _ => rfl
          | sizeMB => exact map_eq_typedResult hrel .sizeMB .sizeMB fun _ => rfl
          | name => exact map_eq_typedResult hstr .name .name fun _ => rfl
          | path | ext => exact map_eq_typedResult hstr .ext .ext fun _ => rfl
          | hash =>
              refine map_eq_typedResult hstr (fun str => .hash str.op str.terms)
                (fun str => .hash str.op str.terms) fun str => ?_
              rw [RawExpression.typed, RawStringExpression.typed, Option.map_map]
              rfl
          | comp =>
              dsimp only
              simp only [toOption_bind, toOption_inside, toOption_pure, Option.bind_assoc, ih,
                typedResult, Option.bind_map, Option.bind_some, Option.pure_def]
              refine congrArg _ (funext fun op => ?_)
              cases hop : LogicalOperator.ofCode? op.1 with
              | none => simp [RawExpression.typed, hop]
              | some op1 =>
                  simp only [RawExpression.typed, hop, Option.bind_eq_bind, Option.bind_some]
                  refine congrArg _ (funext fun left => ?_)
                  cases left.1.typed with
                  | none => simp
                  | some expr =>
                      rw [Option.bind_some, Function.comp_apply]
                      refine congrArg _ (funext fun right => ?_)
                      cases right.1.typed <;> rfl

end LinearizedExpression

end RetroShare.RegularExpression

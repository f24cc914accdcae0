import TypedErrors.Proofs.Attribute.Grammar
import TypedErrors.Proofs.Text.Expression

/-! # Literals that end a run

A numeral that cannot be read is the one token of an attribute block that ends a run. It does so where the
grammar has a literal (`parseAttribute_abort_iff`); anywhere else the token itself is reported. -/

namespace TypedErrors
namespace AttrParse

variable {eof : Option Span} {n : Nat} {t : AttrToken} {ts pre rest : List AttrToken} {a : Abort}

/-! ### Numerals -/

/-- The token is a numeral that cannot be read. -/
inductive Unreadable (t : AttrToken) : NumeralError → Prop
  | int {e : NumeralError} (ht : t.terminal = .int) (h : Numeral.readLiteral t.text = .error e) :
    Unreadable t e
  | float {e : NumeralError} (ht : t.terminal = .float)
      (h : Numeral.readFloat ((Text.ofString t.text).filter (· ≠ .char '_')) = .error e) : Unreadable t e

theorem decodeQuoted_read (t : AttrToken) : (∃ cs, decodeQuoted t = .ok cs) ∨
    ∃ message, decodeQuoted t = .error (.report (.grammar message t.span)) := by
  rw [decodeQuoted]
  split
  · split
    · exact .inl ⟨_, rfl⟩
    · exact .inr ⟨_, rfl⟩
  · split
    · exact .inl ⟨_, rfl⟩
    · exact .inr ⟨_, rfl⟩

/-- A quoted token denotes what its text spells as an expression. -/
theorem decodeQuoted_eq_ok_iff (t : AttrToken) (v : Text) :
    decodeQuoted t = .ok v ↔ Expression.read? t.text.toList = some v := by
  rw [decodeQuoted]
  cases hsingle : Expression.single? t.text.toList with
  | some literal =>
    obtain ⟨isRaw, body⟩ := literal
    rw [Expression.read?_of_single? hsingle]
    dsimp only
    cases Escape.decode isRaw body <;> simp [Except.toOption]
  | none =>
    dsimp only
    cases Expression.read? t.text.toList <;> simp

/-- A literal stands where its token does. Otherwise the token is reported, or it is a numeral that ends the run. -/
inductive LiteralRead (t : AttrToken) : Except Fault Literal → Prop
  | ok {l : Literal} (h : l.span = t.span) : LiteralRead t (.ok l)
  | refused (message : Text) : LiteralRead t (.error (.report (.grammar message t.span)))
  | abort {e : NumeralError} (h : Unreadable t e) : LiteralRead t (.error (.abort (.numeral e)))

theorem literalRead (t : AttrToken) : LiteralRead t (literal t) := by
  rw [literal]
  split
  · exact .ok rfl
  · split
    · rcases decodeQuoted_read t with ⟨cs, h⟩ | ⟨message, h⟩
      · rw [h]
        exact .ok rfl
      · rw [h]
        exact .refused message
    · rcases decodeQuoted_read t with ⟨cs, h⟩ | ⟨message, h⟩
      · rw [h]
        match cs with
        | [c] => exact .ok rfl
        | [] | _ :: _ :: _ => exact .refused _
      · rw [h]
        exact .refused message
    · next ht =>
      split
      · exact .ok rfl
      · next e he => exact .abort (.int ht he)
    · next ht =>
      split
      · exact .ok rfl
      · next e he => exact .abort (.float ht he)
    · exact .refused _

theorem literal_span {l : Literal} (h : literal t = .ok l) : l.span = t.span := by
  have hread := literalRead t
  rw [h] at hread
  cases hread with
  | ok hspan => exact hspan

theorem literal_abort_iff : literal t = .error (.abort a) ↔ ∃ e, a = .numeral e ∧ Unreadable t e := by
  constructor
  · intro h
    have hread := literalRead t
    rw [h] at hread
    cases hread with
    | abort hu => exact ⟨_, rfl, hu⟩
  · rintro ⟨e, rfl, h⟩
    cases h with
    | int ht h => simp [literal, boolWord?, ht, h]
    | float ht h => simp only [literal, boolWord?, ht, reduceCtorEq, if_false, h]

theorem Unreadable.terminal {e : NumeralError} (h : Unreadable t e) :
    t.terminal = .int ∨ t.terminal = .float := by
  cases h with
  | int ht _ => exact .inl ht
  | float ht _ => exact .inr ht

theorem Unreadable.isLiteral {e : NumeralError} (h : Unreadable t e) : isLiteral t = true := by
  cases h with
  | int ht _ => simp [AttrParse.isLiteral, ht]
  | float ht _ => simp [AttrParse.isLiteral, ht]

/-! ### Places of literals -/

mutual

/-- The tokens lead to a literal in a node: after `=`, or among its arguments. -/
inductive NodeTo : List AttrToken → Prop
  | value {ps : List AttrToken} {p : SymbolPath} {e : AttrToken} (hp : PathOf ps p)
      (he : e.terminal = .equal) : NodeTo (ps ++ [e])
  | args {ps as : List AttrToken} {p : SymbolPath} {o : AttrToken} (hp : PathOf ps p)
      (ho : o.terminal = .leftParen) (h : ArgsTo as) : NodeTo (ps ++ o :: as)

/-- The tokens lead to a literal in one of the arguments. -/
inductive ArgsTo : List AttrToken → Prop
  | here {ts : List AttrToken} (h : ArgTo ts) : ArgsTo ts
  | later {ts more : List AttrToken} {x : AttrArg} {k : AttrToken} (hx : ArgOf ts x)
      (hk : k.terminal = .comma) (h : ArgsTo more) : ArgsTo (ts ++ k :: more)

/-- The tokens lead to a literal that is an argument, or that stands in one. -/
inductive ArgTo : List AttrToken → Prop
  | literal : ArgTo []
  | node {ts : List AttrToken} (hs : ¬ StartsLiteral ts) (h : NodeTo ts) : ArgTo ts

end

theorem misfit_ne_abort {what : String} : misfit eof what ts ≠ .abort a := by
  cases ts <;> nofun

theorem pathRest_ne_abort {acc : List Ident} : pathRest eof acc ts ≠ .error (.abort a) := by
  fun_induction pathRest eof acc ts with
  | case1 | case5 =>
    intro h
    cases h
  | case2 _ _ _ _ _ _ ih => exact ih
  | case3 | case4 => exact fun h => misfit_ne_abort (Except.error.inj h)

theorem path_ne_abort : path eof ts ≠ .error (.abort a) := by
  cases ts with
  | nil => exact fun h => misfit_ne_abort (Except.error.inj h)
  | cons t ts =>
    rw [path]
    split_ifs
    · intro h
      rcases bind_eq_error.mp h with h | ⟨_, _, ⟨⟩⟩
      exact pathRest_ne_abort h
    · exact fun h => misfit_ne_abort (Except.error.inj h)

theorem value_abort_iff : value eof ts = .error (.abort a) ↔
    ∃ t rest, ts = t :: rest ∧ literal t = .error (.abort a) := by
  constructor
  · intro h
    cases ts with
    | nil => exact absurd (Except.error.inj h) misfit_ne_abort
    | cons t ts =>
      rw [value] at h
      split_ifs at h
      · rcases bind_eq_error.mp h with h | ⟨_, _, ⟨⟩⟩
        exact ⟨t, ts, rfl, h⟩
      · rcases bind_eq_error.mp h with h | ⟨_, _, ⟨⟩⟩
        exact absurd h path_ne_abort
      · exact absurd (Except.error.inj h) misfit_ne_abort
  · rintro ⟨t, rest, rfl, h⟩
    obtain ⟨e, rfl, hu⟩ := literal_abort_iff.mp h
    rw [value, if_pos hu.isLiteral, h]
    rfl

/-! ### A run ends only at a literal -/

/-- Reading with so much fuel ends a run only at a place of a literal. -/
structure Ends (eof : Option Span) (n : Nat) : Prop where
  node : ∀ {ts a}, node eof n ts = .error (.abort a) →
    ∃ pre t rest, ts = pre ++ t :: rest ∧ NodeTo pre ∧ literal t = .error (.abort a)
  args : ∀ {acc ts a}, args eof n acc ts = .error (.abort a) →
    ∃ pre t rest, ts = pre ++ t :: rest ∧ ArgsTo pre ∧ literal t = .error (.abort a)
  arg : ∀ {ts a}, arg eof n ts = .error (.abort a) →
    ∃ pre t rest, ts = pre ++ t :: rest ∧ ArgTo pre ∧ literal t = .error (.abort a)

theorem NodeTo.exists_cons_cons (h : NodeTo pre) :
    ∃ t k more, pre = t :: k :: more ∧ t.terminal = .name := by
  cases h with
  | value hp _ =>
    obtain ⟨t, ps, rfl, ht⟩ := hp.exists_cons
    cases ps with
    | nil => exact ⟨t, _, [], rfl, ht⟩
    | cons k ps => exact ⟨t, k, _, rfl, ht⟩
  | args hp _ _ =>
    obtain ⟨t, ps, rfl, ht⟩ := hp.exists_cons
    cases ps with
    | nil => exact ⟨t, _, _, rfl, ht⟩
    | cons k ps => exact ⟨t, k, _, rfl, ht⟩

namespace Ends

theorem node_succ (ih : Ends eof n) (h : AttrParse.node eof (n + 1) ts = .error (.abort a)) :
    ∃ pre t rest, ts = pre ++ t :: rest ∧ NodeTo pre ∧ literal t = .error (.abort a) := by
  rw [AttrParse.node] at h
  rcases bind_eq_error.mp h with h | ⟨⟨p, rest⟩, hpath, hrest⟩
  · exact absurd h path_ne_abort
  · obtain ⟨ps, rfl, hp, -⟩ := path_sound hpath
    cases rest with
    | nil => cases hrest
    | cons k rest =>
      simp only at hrest
      split_ifs at hrest with hparen hequal
      · rcases bind_eq_error.mp hrest with hargs | ⟨_, _, ⟨⟩⟩
        obtain ⟨pre, t, post, rfl, hpre, ht⟩ := ih.args hargs
        exact ⟨ps ++ k :: pre, t, post, by simp, .args hp hparen hpre, ht⟩
      · rcases bind_eq_error.mp hrest with hvalue | ⟨_, _, ⟨⟩⟩
        obtain ⟨t, post, rfl, ht⟩ := value_abort_iff.mp hvalue
        exact ⟨ps ++ [k], t, post, by simp, .value hp hequal, ht⟩
      · cases hrest

theorem args_succ (ih : Ends eof n) {acc : List AttrArg}
    (h : AttrParse.args eof (n + 1) acc ts = .error (.abort a)) :
    ∃ pre t rest, ts = pre ++ t :: rest ∧ ArgsTo pre ∧ literal t = .error (.abort a) := by
  cases ts with
  | nil => rw [AttrParse.args] at h; exact absurd (Except.error.inj h) misfit_ne_abort
  | cons t ts =>
    rw [AttrParse.args] at h
    split_ifs at h with hclose
    · cases h
    · rcases bind_eq_error.mp h with harg | ⟨⟨x, rest⟩, harg, hrest⟩
      · obtain ⟨pre, t', post, hts, hpre, ht'⟩ := ih.arg harg
        exact ⟨pre, t', post, hts, .here hpre, ht'⟩
      · obtain ⟨used, hts, hx⟩ := (sound eof n).arg harg
        cases rest with
        | nil => exact absurd (Except.error.inj hrest) misfit_ne_abort
        | cons k rest =>
          simp only at hrest
          split_ifs at hrest with hcomma hclose'
          · obtain ⟨pre, t', post, rfl, hpre, ht'⟩ := ih.args hrest
            exact ⟨used ++ k :: pre, t', post, by simp [hts], .later hx hcomma hpre, ht'⟩
          · -- nothing is read at the closing parenthesis
            cases n with
            | zero => rw [AttrParse.args] at hrest; exact absurd (Except.error.inj hrest) misfit_ne_abort
            | succ n => rw [AttrParse.args, if_pos hclose'] at hrest; cases hrest
          · exact absurd (Except.error.inj hrest) misfit_ne_abort

theorem arg_succ (ih : Ends eof n) (h : AttrParse.arg eof (n + 1) ts = .error (.abort a)) :
    ∃ pre t rest, ts = pre ++ t :: rest ∧ ArgTo pre ∧ literal t = .error (.abort a) := by
  cases ts with
  | nil => rw [AttrParse.arg] at h; exact absurd (Except.error.inj h) misfit_ne_abort
  | cons t ts =>
    rw [AttrParse.arg] at h
    split_ifs at h with hlit hname
    · rcases bind_eq_error.mp h with h | ⟨_, _, ⟨⟩⟩
      exact ⟨[], t, ts, rfl, .literal, h⟩
    · rcases bind_eq_error.mp h with hnode | ⟨_, _, ⟨⟩⟩
      obtain ⟨pre, t', post, hts, hpre, ht'⟩ := ih.node hnode
      obtain ⟨t, k, more, rfl, -⟩ := hpre.exists_cons_cons
      obtain ⟨rfl, rfl⟩ := List.cons.inj hts
      exact ⟨t :: k :: more, t', post, rfl, .node (startsLiteral_iff.not.mp hlit) hpre, ht'⟩
    · exact absurd (Except.error.inj h) misfit_ne_abort

end Ends

theorem ends (eof : Option Span) : ∀ n, Ends eof n
  | 0 => ⟨fun h => absurd (Except.error.inj h) misfit_ne_abort,
      fun h => absurd (Except.error.inj h) misfit_ne_abort,
      fun h => absurd (Except.error.inj h) misfit_ne_abort⟩
  | n + 1 => ⟨(ends eof n).node_succ, (ends eof n).args_succ, (ends eof n).arg_succ⟩

/-! ### Every place of a literal is reached -/

theorem startsLiteral_of_abort (ht : literal t = .error (.abort a)) : StartsLiteral (t :: rest) := by
  obtain ⟨e, rfl, hu⟩ := literal_abort_iff.mp ht
  refine ⟨hu.isLiteral, fun hb => ?_⟩
  rcases hu.terminal with h | h <;> simp [boolWord?, h] at hb

theorem exists_cons_of_argTo (h : ArgTo pre) (ht : literal t = .error (.abort a)) (rest : List AttrToken) :
    ∃ k more, pre ++ t :: rest = k :: more ∧ k.terminal ≠ .rightParen := by
  cases h with
  | literal =>
    obtain ⟨e, rfl, hu⟩ := literal_abort_iff.mp ht
    exact ⟨t, rest, rfl, by rcases hu.terminal with h | h <;> simp [h]⟩
  | node _ hm =>
    obtain ⟨k, k', more, rfl, hk⟩ := hm.exists_cons_cons
    exact ⟨k, _, rfl, by simp [hk]⟩

/-- With so much fuel a numeral that cannot be read ends the run at a place of a literal. -/
structure Reaches (eof : Option Span) (n : Nat) : Prop where
  node : ∀ {pre t rest a}, NodeTo pre → literal t = .error (.abort a) → 3 * pre.length + 1 ≤ n →
    node eof n (pre ++ t :: rest) = .error (.abort a)
  args : ∀ {pre t rest a}, ArgsTo pre → literal t = .error (.abort a) → 3 * pre.length + 3 ≤ n →
    ∀ acc, args eof n acc (pre ++ t :: rest) = .error (.abort a)
  arg : ∀ {pre t rest a}, ArgTo pre → literal t = .error (.abort a) → 3 * pre.length + 2 ≤ n →
    arg eof n (pre ++ t :: rest) = .error (.abort a)

namespace Reaches

theorem node_succ (ih : Reaches eof n) (h : NodeTo pre) (ht : literal t = .error (.abort a))
    (hn : 3 * pre.length + 1 ≤ n + 1) :
    AttrParse.node eof (n + 1) (pre ++ t :: rest) = .error (.abort a) := by
  rw [AttrParse.node]
  cases h with
  | @value ps p e hp he =>
    rw [List.append_assoc, List.singleton_append]
    refine bind_eq_error.mpr (.inr ⟨_, path_complete hp (.of_terminal (by simp [he])), ?_⟩)
    simp only [he, reduceCtorEq, if_true, if_false]
    exact bind_eq_error.mpr (.inl (value_abort_iff.mpr ⟨t, rest, rfl, ht⟩))
  | @args ps as p o hp ho has =>
    rw [List.append_assoc, List.cons_append]
    refine bind_eq_error.mpr (.inr ⟨_, path_complete hp (.of_terminal (by simp [ho])), ?_⟩)
    simp only [ho, if_true]
    refine bind_eq_error.mpr (.inl (ih.args has ht ?_ []))
    obtain ⟨k, ps, rfl, -⟩ := hp.exists_cons
    simp only [List.length_append, List.length_cons] at hn
    omega

theorem args_succ (ih : Reaches eof n) (h : ArgsTo pre) (ht : literal t = .error (.abort a))
    (hn : 3 * pre.length + 3 ≤ n + 1) (acc : List AttrArg) :
    AttrParse.args eof (n + 1) acc (pre ++ t :: rest) = .error (.abort a) := by
  cases h with
  | here h =>
    obtain ⟨k, more, heq, hk⟩ := exists_cons_of_argTo h ht rest
    rw [heq, AttrParse.args, if_neg hk, ← heq]
    exact bind_eq_error.mpr (.inl (ih.arg h ht (by omega)))
  | @later ts more x k hx hk hmore =>
    simp only [List.length_append, List.length_cons] at hn
    have harg : AttrParse.arg eof n (ts ++ k :: (more ++ t :: rest)) = .ok (x, k :: (more ++ t :: rest)) :=
      (complete eof n).arg hx (.of_terminal (.inl hk)) (by omega)
    obtain ⟨k', ts, rfl, hk'⟩ := hx.exists_cons
    rw [List.append_assoc, List.cons_append, List.cons_append, AttrParse.args, if_neg hk', ← List.cons_append]
    refine bind_eq_error.mpr (.inr ⟨_, harg, ?_⟩)
    simp only [hk, if_true]
    exact ih.args hmore ht (by omega) (x :: acc)

theorem arg_succ (ih : Reaches eof n) (h : ArgTo pre) (ht : literal t = .error (.abort a))
    (hn : 3 * pre.length + 2 ≤ n + 1) :
    AttrParse.arg eof (n + 1) (pre ++ t :: rest) = .error (.abort a) := by
  cases h with
  | literal =>
    rw [List.nil_append, AttrParse.arg, if_pos (startsLiteral_iff.mpr (startsLiteral_of_abort ht)), ht]
    rfl
  | node hs hm =>
    have hnode : AttrParse.node eof n (pre ++ t :: rest) = .error (.abort a) := ih.node hm ht (by omega)
    obtain ⟨k, k', more, rfl, hk⟩ := hm.exists_cons_cons
    have hs' : ¬ StartsLiteral (k :: k' :: (more ++ t :: rest)) := hs
    rw [List.cons_append, List.cons_append] at hnode ⊢
    rw [AttrParse.arg, if_neg (startsLiteral_iff.not.mpr hs'), if_pos hk, hnode]
    rfl

end Reaches

theorem reaches (eof : Option Span) : ∀ n, Reaches eof n
  | 0 => ⟨fun _ _ h => by omega, fun _ _ h => by omega, fun _ _ h => by omega⟩
  | n + 1 => ⟨(reaches eof n).node_succ, (reaches eof n).args_succ, (reaches eof n).arg_succ⟩

end AttrParse

open AttrParse

/-- A block ends a run just when a numeral in it cannot be read, where the tokens before it lead to a
literal. -/
theorem parseAttribute_abort_iff {b : RawAttribute} {x : Abort} : parseAttribute b = .error (.abort x) ↔
    ∃ pre t rest e, b.tokens = pre ++ t :: rest ∧ NodeTo pre ∧ Unreadable t e ∧ x = .numeral e := by
  rw [parseAttribute, bind_eq_error]
  constructor
  · rintro (h | ⟨⟨m, rest⟩, -, h⟩)
    · obtain ⟨pre, t, rest, hts, hpre, ht⟩ := (ends _ _).node h
      obtain ⟨e, rfl, hu⟩ := literal_abort_iff.mp ht
      exact ⟨pre, t, rest, e, hts, hpre, hu, rfl⟩
    · cases rest <;> cases h
  · rintro ⟨pre, t, rest, e, hts, hpre, hu, rfl⟩
    rw [hts]
    refine .inl ((reaches _ _).node hpre (literal_abort_iff.mpr ⟨e, rfl, hu⟩) ?_)
    rw [List.length_append]
    omega

end TypedErrors

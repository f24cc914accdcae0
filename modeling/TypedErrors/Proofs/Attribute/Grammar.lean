import Mathlib.Tactic.SplitIfs
import TypedErrors.Attribute.Parser
import TypedErrors.Proofs.Except

/-! # The grammar of attribute blocks

The rules of the grammar as relations between the tokens of a phrase and what they spell. The parser finds
nothing but phrases (`node_sound`), and it finds every phrase that is not followed by a token that would go on
with it, given three units of fuel for each token (`node_complete`). -/

namespace TypedErrors
namespace AttrParse

variable {eof : Option Span} {n : Nat} {t : AttrToken} {ts used rest : List AttrToken}

/-! ### Paths -/

/-- The segment that a token spells. -/
def segment (t : AttrToken) : Ident := ⟨t.text, t.span⟩

/-- Segments after the first, each with the separator before it. -/
inductive Segments : List AttrToken → List Ident → Prop
  | nil : Segments [] []
  | cons {d t : AttrToken} {ts : List AttrToken} {is : List Ident}
      (hd : d.terminal = .dot ∨ d.terminal = .pathSep) (ht : t.terminal = .name) (h : Segments ts is) :
    Segments (d :: t :: ts) (segment t :: is)

/-- A path: a name, and segments after it. Its span ends with the last of them. -/
inductive PathOf : List AttrToken → SymbolPath → Prop
  | mk {t : AttrToken} {ts : List AttrToken} {is : List Ident} (ht : t.terminal = .name)
      (h : Segments ts is) :
    PathOf (t :: ts) ⟨segment t :: is, t.span.map (·.join (is.getLast?.getD (segment t)).span)⟩

/-- No token at the front continues a path. -/
def EndsPath (ts : List AttrToken) : Prop := ∀ t ∈ ts.head?, t.terminal ≠ .dot ∧ t.terminal ≠ .pathSep

theorem pathRest_sound : ∀ {acc is : List Ident} {ts rest : List AttrToken},
    pathRest eof acc ts = .ok (is, rest) →
    ∃ used js, ts = used ++ rest ∧ Segments used js ∧ is = acc.reverse ++ js ∧ EndsPath rest
  | acc, is, [], rest, h => by
    obtain ⟨rfl, rfl⟩ := Prod.mk.inj (Except.ok.inj h)
    exact ⟨[], [], rfl, .nil, (List.append_nil _).symm, by simp [EndsPath]⟩
  | acc, is, [d], rest, h => by
    rw [pathRest] at h
    split_ifs at h with hd
    obtain ⟨rfl, rfl⟩ := Prod.mk.inj (Except.ok.inj h)
    exact ⟨[], [], rfl, .nil, (List.append_nil _).symm, by simpa [EndsPath, not_or] using hd⟩
  | acc, is, d :: t :: ts, rest, h => by
    rw [pathRest] at h
    split_ifs at h with hd ht
    · obtain ⟨used, js, rfl, hs, rfl, he⟩ := pathRest_sound h
      refine ⟨d :: t :: used, segment t :: js, rfl, .cons hd ht hs, ?_, he⟩
      simp [segment]
    · obtain ⟨rfl, rfl⟩ := Prod.mk.inj (Except.ok.inj h)
      exact ⟨[], [], rfl, .nil, (List.append_nil _).symm, by simpa [EndsPath, not_or] using hd⟩

theorem pathRest_complete {js : List Ident} (h : Segments used js) (hr : EndsPath rest) (acc : List Ident) :
    pathRest eof acc (used ++ rest) = .ok (acc.reverse ++ js, rest) := by
  induction h generalizing acc with
  | nil =>
    rw [List.nil_append, List.append_nil]
    cases rest with
    | nil => rfl
    | cons t ts =>
      have ht : ¬ (t.terminal = .dot ∨ t.terminal = .pathSep) := not_or.mpr (hr t rfl)
      cases ts with
      | nil => rw [pathRest, if_neg ht]
      | cons => rw [pathRest, if_neg ht]
  | cons hd ht _ ih =>
    rw [List.cons_append, List.cons_append, pathRest, if_pos hd]
    simp only [ht, if_true]
    rw [ih]
    simp [segment]

theorem path_sound {p : SymbolPath} (h : path eof ts = .ok (p, rest)) :
    ∃ used, ts = used ++ rest ∧ PathOf used p ∧ EndsPath rest := by
  cases ts with
  | nil => cases h
  | cons t ts =>
    rw [path] at h
    split_ifs at h with ht
    obtain ⟨⟨is, rest'⟩, hrest, h⟩ := bind_eq_ok.mp h
    obtain ⟨rfl, rfl⟩ := Prod.mk.inj (Except.ok.inj h)
    obtain ⟨used, js, rfl, hs, his, he⟩ := pathRest_sound hrest
    simp only [List.reverse_nil, List.nil_append] at his
    subst his
    exact ⟨t :: used, rfl, .mk ht hs, he⟩

theorem path_complete {p : SymbolPath} (h : PathOf used p) (hr : EndsPath rest) :
    path eof (used ++ rest) = .ok (p, rest) := by
  cases h with
  | mk ht hs =>
    rw [List.cons_append, path, if_pos ht]
    refine bind_eq_ok.mpr ⟨_, pathRest_complete hs hr [], ?_⟩
    rw [List.reverse_nil, List.nil_append]
    rfl

theorem PathOf.exists_cons {p : SymbolPath} (h : PathOf used p) :
    ∃ t ts, used = t :: ts ∧ t.terminal = .name := by
  cases h with
  | mk ht _ => exact ⟨_, _, rfl, ht⟩

/-! ### Values, nodes and arguments -/

/-- A literal stands in front. The words `true` and `false` are none before `=`. -/
def StartsLiteral : List AttrToken → Prop
  | [] => False
  | t :: ts => isLiteral t = true ∧ ((boolWord? t).isSome = true → startsWith .equal ts = false)

/-- The right-hand side of `=`: a literal, or a path that does not start with a literal. -/
inductive ValueOf : List AttrToken → AttrValue → Prop
  | literal {t : AttrToken} {l : Literal} (ht : isLiteral t = true) (h : literal t = .ok l) :
    ValueOf [t] (.literal l)
  | path {t : AttrToken} {ts : List AttrToken} {p : SymbolPath} (ht : isLiteral t = false)
      (h : PathOf (t :: ts) p) : ValueOf (t :: ts) (.path p)

mutual

/-- A word, a name with a value, or a name with arguments. -/
inductive NodeOf : List AttrToken → AttrNode → Prop
  | word {ps : List AttrToken} {p : SymbolPath} (hp : PathOf ps p) : NodeOf ps (.word p p.span)
  | assign {ps vs : List AttrToken} {p : SymbolPath} {e : AttrToken} {v : AttrValue} (hp : PathOf ps p)
      (he : e.terminal = .equal) (hv : ValueOf vs v) :
    NodeOf (ps ++ e :: vs) (.assign p v (joinSpans p.span v.span))
  | list {ps as : List AttrToken} {p : SymbolPath} {o : AttrToken} {args : List AttrArg}
      {close : Option Span} (hp : PathOf ps p) (ho : o.terminal = .leftParen) (h : ArgsOf as args close) :
    NodeOf (ps ++ o :: as) (.list p args (joinSpans p.span close))

/-- Arguments and the closing parenthesis; the last of them may have a comma after it. -/
inductive ArgsOf : List AttrToken → List AttrArg → Option Span → Prop
  | close {c : AttrToken} (hc : c.terminal = .rightParen) : ArgsOf [c] [] c.span
  | last {ts : List AttrToken} {a : AttrArg} {c : AttrToken} (ha : ArgOf ts a)
      (hc : c.terminal = .rightParen) : ArgsOf (ts ++ [c]) [a] c.span
  | cons {ts more : List AttrToken} {a : AttrArg} {args : List AttrArg} {k : AttrToken}
      {close : Option Span} (ha : ArgOf ts a) (hk : k.terminal = .comma) (h : ArgsOf more args close) :
    ArgsOf (ts ++ k :: more) (a :: args) close

/-- A literal, or a node that does not start with one. -/
inductive ArgOf : List AttrToken → AttrArg → Prop
  | literal {t : AttrToken} {l : Literal} (ht : isLiteral t = true) (h : literal t = .ok l) :
    ArgOf [t] (.literal l)
  | node {ts : List AttrToken} {m : AttrNode} (hs : ¬ StartsLiteral ts) (h : NodeOf ts m) :
    ArgOf ts (.node m)

end

theorem startsLiteral_iff : (isLiteral t && !((boolWord? t).isSome && startsWith .equal ts)) = true ↔
    StartsLiteral (t :: ts) := by
  rw [StartsLiteral, Bool.and_eq_true, Bool.not_eq_true', Bool.and_eq_false_imp]

/-! ### Soundness -/

/-- No token at the front continues a node. -/
structure EndsNode (ts : List AttrToken) : Prop where
  path : EndsPath ts
  paren : startsWith .leftParen ts = false
  equal : startsWith .equal ts = false

theorem value_sound {v : AttrValue} (h : value eof ts = .ok (v, rest)) :
    ∃ used, ts = used ++ rest ∧ ValueOf used v := by
  cases ts with
  | nil => cases h
  | cons t ts =>
    rw [value] at h
    split_ifs at h with hl hn
    · obtain ⟨l, hlit, h⟩ := bind_eq_ok.mp h
      obtain ⟨rfl, rfl⟩ := Prod.mk.inj (Except.ok.inj h)
      exact ⟨[t], rfl, .literal hl hlit⟩
    · obtain ⟨⟨p, rest'⟩, hp, h⟩ := bind_eq_ok.mp h
      obtain ⟨rfl, rfl⟩ := Prod.mk.inj (Except.ok.inj h)
      obtain ⟨used, hts, hused, -⟩ := path_sound hp
      obtain ⟨t', used, rfl, -⟩ := hused.exists_cons
      obtain ⟨rfl, rfl⟩ := List.cons.inj hts
      exact ⟨t :: used, rfl, .path (Bool.eq_false_iff.mpr hl) hused⟩

theorem NodeOf.exists_path {m : AttrNode} (h : NodeOf used m) :
    ∃ ps p, PathOf ps p ∧ ((used = ps ∧ m = .word p p.span) ∨ ∃ k more, used = ps ++ k :: more) := by
  cases h with
  | word hp => exact ⟨_, _, hp, .inl ⟨rfl, rfl⟩⟩
  | assign hp _ _ => exact ⟨_, _, hp, .inr ⟨_, _, rfl⟩⟩
  | list hp _ _ => exact ⟨_, _, hp, .inr ⟨_, _, rfl⟩⟩

/-- A word ends the node only if nothing goes on with it, so whether an argument starts with a literal is
settled by its own tokens. -/
theorem not_startsLiteral_of_append {m : AttrNode} (hm : NodeOf used m)
    (hw : ∀ p s, m = .word p s → EndsNode rest) (h : ¬ StartsLiteral (used ++ rest)) :
    ¬ StartsLiteral used := by
  obtain ⟨ps, p, hp, hps⟩ := hm.exists_path
  obtain ⟨t, ps, rfl, -⟩ := hp.exists_cons
  rintro hused
  rcases hps with ⟨rfl, rfl⟩ | ⟨k, more, rfl⟩
  · refine h ⟨hused.1, fun hb => ?_⟩
    cases ps with
    | nil => exact (hw p _ rfl).equal
    | cons => exact hused.2 hb
  · refine h ⟨hused.1, fun hb => ?_⟩
    cases ps with
    | nil => exact hused.2 hb
    | cons => exact hused.2 hb

/-- What is read with so much fuel is a phrase. -/
structure Sound (eof : Option Span) (n : Nat) : Prop where
  node : ∀ {ts rest m}, node eof n ts = .ok (m, rest) →
    ∃ used, ts = used ++ rest ∧ NodeOf used m ∧ ∀ p s, m = .word p s → EndsNode rest
  args : ∀ {acc ts rest as close}, args eof n acc ts = .ok (as, close, rest) →
    ∃ used bs, ts = used ++ rest ∧ ArgsOf used bs close ∧ as = acc.reverse ++ bs
  arg : ∀ {ts rest a}, arg eof n ts = .ok (a, rest) → ∃ used, ts = used ++ rest ∧ ArgOf used a

namespace Sound

theorem node_succ (ih : Sound eof n) {m : AttrNode} (h : AttrParse.node eof (n + 1) ts = .ok (m, rest)) :
    ∃ used, ts = used ++ rest ∧ NodeOf used m ∧ ∀ p s, m = .word p s → EndsNode rest := by
  rw [AttrParse.node] at h
  obtain ⟨⟨p, rest'⟩, hpath, hrest⟩ := bind_eq_ok.mp h
  obtain ⟨ps, rfl, hp, hends⟩ := path_sound hpath
  cases rest' with
  | nil =>
    obtain ⟨rfl, rfl⟩ := Prod.mk.inj (Except.ok.inj hrest)
    exact ⟨ps, rfl, .word hp, fun _ _ _ => ⟨hends, rfl, rfl⟩⟩
  | cons t rest' =>
    simp only at hrest
    split_ifs at hrest with hparen hequal
    · obtain ⟨⟨as, close, rest''⟩, has, heq⟩ := bind_eq_ok.mp hrest
      obtain ⟨rfl, rfl⟩ := Prod.mk.inj (Except.ok.inj heq)
      obtain ⟨used, bs, rfl, hargs, rfl⟩ := ih.args has
      exact ⟨ps ++ t :: used, by simp, .list hp hparen hargs, nofun⟩
    · obtain ⟨⟨v, rest''⟩, hvalue, heq⟩ := bind_eq_ok.mp hrest
      obtain ⟨rfl, rfl⟩ := Prod.mk.inj (Except.ok.inj heq)
      obtain ⟨used, rfl, hv⟩ := value_sound hvalue
      exact ⟨ps ++ t :: used, by simp, .assign hp hequal hv, nofun⟩
    · obtain ⟨rfl, rfl⟩ := Prod.mk.inj (Except.ok.inj hrest)
      exact ⟨ps, rfl, .word hp, fun _ _ _ => ⟨hends, decide_eq_false hparen, decide_eq_false hequal⟩⟩

theorem args_succ (ih : Sound eof n) {acc as : List AttrArg} {close : Option Span}
    (h : AttrParse.args eof (n + 1) acc ts = .ok (as, close, rest)) :
    ∃ used bs, ts = used ++ rest ∧ ArgsOf used bs close ∧ as = acc.reverse ++ bs := by
  cases ts with
  | nil => rw [AttrParse.args] at h; cases h
  | cons t ts =>
    rw [AttrParse.args] at h
    split_ifs at h with hclose
    · obtain ⟨rfl, heq⟩ := Prod.mk.inj (Except.ok.inj h)
      obtain ⟨rfl, rfl⟩ := Prod.mk.inj heq
      exact ⟨[t], [], rfl, .close hclose, (List.append_nil _).symm⟩
    · obtain ⟨⟨a, rest'⟩, harg, hrest⟩ := bind_eq_ok.mp h
      obtain ⟨used, hts, ha⟩ := ih.arg harg
      cases rest' with
      | nil => cases hrest
      | cons c rest' =>
        simp only at hrest
        split_ifs at hrest with hcomma hclose'
        · obtain ⟨more, bs, rfl, hargs, rfl⟩ := ih.args hrest
          exact ⟨used ++ c :: more, a :: bs, by simp [hts], .cons ha hcomma hargs, by simp⟩
        · -- the parenthesis is left to a call that reads nothing else
          cases n with
          | zero => rw [AttrParse.args] at hrest; cases hrest
          | succ n =>
            rw [AttrParse.args, if_pos hclose'] at hrest
            obtain ⟨rfl, heq⟩ := Prod.mk.inj (Except.ok.inj hrest)
            obtain ⟨rfl, rfl⟩ := Prod.mk.inj heq
            exact ⟨used ++ [c], [a], by simp [hts], .last ha hclose', by simp⟩

theorem arg_succ (ih : Sound eof n) {a : AttrArg} (h : AttrParse.arg eof (n + 1) ts = .ok (a, rest)) :
    ∃ used, ts = used ++ rest ∧ ArgOf used a := by
  cases ts with
  | nil => rw [AttrParse.arg] at h; cases h
  | cons t ts =>
    rw [AttrParse.arg] at h
    split_ifs at h with hlit hname
    · obtain ⟨l, hl, heq⟩ := bind_eq_ok.mp h
      obtain ⟨rfl, rfl⟩ := Prod.mk.inj (Except.ok.inj heq)
      rw [Bool.and_eq_true] at hlit
      exact ⟨[t], rfl, .literal hlit.1 hl⟩
    · obtain ⟨⟨m, rest'⟩, hnode, heq⟩ := bind_eq_ok.mp h
      obtain ⟨rfl, rfl⟩ := Prod.mk.inj (Except.ok.inj heq)
      obtain ⟨used, hts, hm, hw⟩ := ih.node hnode
      refine ⟨used, hts, .node (not_startsLiteral_of_append hm hw ?_) hm⟩
      rw [← hts, ← startsLiteral_iff]
      exact hlit

end Sound

/-- Whatever is read is a phrase, by induction on the fuel. -/
theorem sound (eof : Option Span) : ∀ n, Sound eof n
  | 0 => ⟨nofun, nofun, nofun⟩
  | n + 1 => ⟨(sound eof n).node_succ, (sound eof n).args_succ, (sound eof n).arg_succ⟩

/-! ### Completeness -/

theorem EndsPath.of_terminal (ht : t.terminal = .comma ∨ t.terminal = .rightParen ∨
    t.terminal = .leftParen ∨ t.terminal = .equal) : EndsPath (t :: ts) := by
  intro t' h
  obtain rfl := Option.some.inj h
  rcases ht with ht | ht | ht | ht <;> simp [ht]

theorem EndsNode.of_terminal (ht : t.terminal = .comma ∨ t.terminal = .rightParen) : EndsNode (t :: ts) := by
  refine ⟨.of_terminal (by rcases ht with ht | ht <;> simp [ht]), ?_, ?_⟩ <;>
    rcases ht with ht | ht <;> simp [startsWith, ht]

theorem EndsNode.nil : EndsNode [] := ⟨by simp [EndsPath], rfl, rfl⟩

theorem value_complete {v : AttrValue} (h : ValueOf used v) (hr : EndsPath rest) :
    value eof (used ++ rest) = .ok (v, rest) := by
  cases h with
  | literal ht hl =>
    rw [List.singleton_append, value, if_pos ht, hl]
    rfl
  | @path t ts p ht hp =>
    obtain ⟨t', ts', heq, hname⟩ := hp.exists_cons
    obtain ⟨rfl, rfl⟩ := List.cons.inj heq
    rw [List.cons_append, value, if_neg (by simp [ht]), if_pos hname, ← List.cons_append,
      path_complete hp hr]
    rfl

/-- A phrase is read with so much fuel. -/
structure Complete (eof : Option Span) (n : Nat) : Prop where
  node : ∀ {used rest m}, NodeOf used m → EndsNode rest → 3 * used.length + 1 ≤ n →
    node eof n (used ++ rest) = .ok (m, rest)
  args : ∀ {used rest bs close}, ArgsOf used bs close → 3 * used.length + 3 ≤ n →
    ∀ acc, args eof n acc (used ++ rest) = .ok (acc.reverse ++ bs, close, rest)
  arg : ∀ {used rest a}, ArgOf used a → EndsNode rest → 3 * used.length + 2 ≤ n →
    arg eof n (used ++ rest) = .ok (a, rest)

theorem NodeOf.exists_cons {m : AttrNode} (h : NodeOf used m) :
    ∃ t ts, used = t :: ts ∧ t.terminal = .name := by
  obtain ⟨ps, p, hp, hps⟩ := h.exists_path
  obtain ⟨t, ps, rfl, ht⟩ := hp.exists_cons
  rcases hps with ⟨rfl, -⟩ | ⟨k, more, rfl⟩
  · exact ⟨t, _, rfl, ht⟩
  · exact ⟨t, _, List.cons_append, ht⟩

/-- No argument starts with a closing parenthesis. -/
theorem ArgOf.exists_cons {a : AttrArg} (h : ArgOf used a) :
    ∃ t ts, used = t :: ts ∧ t.terminal ≠ .rightParen := by
  cases h with
  | @literal t l ht _ =>
    refine ⟨t, [], rfl, fun hc => ?_⟩
    simp [isLiteral, boolWord?, hc] at ht
  | node _ hm =>
    obtain ⟨t, ts, rfl, ht⟩ := hm.exists_cons
    exact ⟨t, ts, rfl, by simp [ht]⟩

theorem not_startsLiteral_append (hne : used ≠ []) (h : ¬ StartsLiteral used) :
    ¬ StartsLiteral (used ++ rest) := by
  match used with
  | [t] => exact fun hl => h ⟨hl.1, fun _ => rfl⟩
  | t :: t' :: ts => exact h

namespace Complete

theorem node_succ (ih : Complete eof n) {m : AttrNode} (h : NodeOf used m) (hr : EndsNode rest)
    (hn : 3 * used.length + 1 ≤ n + 1) : AttrParse.node eof (n + 1) (used ++ rest) = .ok (m, rest) := by
  rw [AttrParse.node]
  cases h with
  | word hp =>
    refine bind_eq_ok.mpr ⟨_, path_complete hp hr.path, ?_⟩
    cases rest with
    | nil => rfl
    | cons t rest =>
      have hparen : t.terminal ≠ .leftParen := of_decide_eq_false hr.paren
      have hequal : t.terminal ≠ .equal := of_decide_eq_false hr.equal
      simp only [hparen, hequal, if_false]
      rfl
  | @assign ps vs p e v hp he hv =>
    rw [List.append_assoc, List.cons_append]
    refine bind_eq_ok.mpr ⟨_, path_complete hp (.of_terminal (by simp [he])), ?_⟩
    simp only [he, reduceCtorEq, if_true, if_false]
    exact bind_eq_ok.mpr ⟨_, value_complete hv hr.path, rfl⟩
  | @list ps as p o args close hp ho hargs =>
    rw [List.append_assoc, List.cons_append]
    refine bind_eq_ok.mpr ⟨_, path_complete hp (.of_terminal (by simp [ho])), ?_⟩
    simp only [ho, if_true]
    obtain ⟨t, ps, rfl, -⟩ := hp.exists_cons
    refine bind_eq_ok.mpr ⟨_, ih.args hargs ?_ [], rfl⟩
    simp only [List.length_append, List.length_cons] at hn
    omega

theorem args_succ (ih : Complete eof n) {bs : List AttrArg} {close : Option Span} (h : ArgsOf used bs close)
    (hn : 3 * used.length + 3 ≤ n + 1) (acc : List AttrArg) :
    AttrParse.args eof (n + 1) acc (used ++ rest) = .ok (acc.reverse ++ bs, close, rest) := by
  cases h with
  | close hc =>
    rw [List.singleton_append, AttrParse.args, if_pos hc, List.append_nil]
    rfl
  | @last ts a c ha hc =>
    obtain ⟨t, ts, rfl, ht⟩ := ha.exists_cons
    simp only [List.length_append, List.length_cons, List.length_nil] at hn
    rw [List.append_assoc, List.cons_append, AttrParse.args, if_neg ht, ← List.cons_append]
    refine bind_eq_ok.mpr ⟨_, ih.arg ha (.of_terminal (.inr hc)) (by simp only [List.length_cons]; omega), ?_⟩
    simp only [List.singleton_append, hc, reduceCtorEq, if_true, if_false]
    have hlast : AttrParse.args eof n (a :: acc) ([c] ++ rest) = .ok ((a :: acc).reverse ++ [], c.span, rest) :=
      ih.args (.close hc) (by simp only [List.length_cons, List.length_nil]; omega) (a :: acc)
    simpa using hlast
  | @cons ts more a args k close ha hk hmore =>
    obtain ⟨t, ts, rfl, ht⟩ := ha.exists_cons
    simp only [List.length_append, List.length_cons] at hn
    rw [List.append_assoc, List.cons_append, AttrParse.args, if_neg ht, ← List.cons_append]
    refine bind_eq_ok.mpr ⟨_, ih.arg ha (.of_terminal (.inl hk)) (by simp only [List.length_cons]; omega), ?_⟩
    simp only [List.cons_append, hk, if_true]
    rw [ih.args hmore (by omega) (a :: acc)]
    simp

theorem arg_succ (ih : Complete eof n) {a : AttrArg} (h : ArgOf used a) (hr : EndsNode rest)
    (hn : 3 * used.length + 2 ≤ n + 1) : AttrParse.arg eof (n + 1) (used ++ rest) = .ok (a, rest) := by
  cases h with
  | @literal t l ht hl =>
    rw [List.singleton_append, AttrParse.arg, if_pos (startsLiteral_iff.mpr ⟨ht, fun _ => hr.equal⟩), hl]
    rfl
  | @node ts m hs hm =>
    obtain ⟨t, ts, rfl, ht⟩ := hm.exists_cons
    have hs' : ¬ StartsLiteral (t :: (ts ++ rest)) := not_startsLiteral_append (List.cons_ne_nil t ts) hs
    rw [List.cons_append, AttrParse.arg, if_neg (startsLiteral_iff.not.mpr hs'), if_pos ht, ← List.cons_append]
    exact bind_eq_ok.mpr ⟨_, ih.node hm hr (by omega), rfl⟩

end Complete

/-- Every phrase is read, by induction on the fuel. -/
theorem complete (eof : Option Span) : ∀ n, Complete eof n
  | 0 => ⟨fun _ _ h => by omega, fun _ h => by omega, fun _ _ h => by omega⟩
  | n + 1 => ⟨(complete eof n).node_succ, (complete eof n).args_succ, (complete eof n).arg_succ⟩

end AttrParse

open AttrParse

/-- A block is read just when its tokens are a node to the last. -/
theorem parseAttribute_eq_ok_iff {a : RawAttribute} {m : AttrNode} :
    parseAttribute a = .ok m ↔ NodeOf a.tokens m := by
  rw [parseAttribute, bind_eq_ok]
  constructor
  · rintro ⟨⟨m', rest⟩, hnode, h⟩
    obtain ⟨used, hts, hm, -⟩ := (sound _ _).node hnode
    cases rest with
    | nil =>
      obtain rfl := Except.ok.inj h
      rwa [hts, List.append_nil]
    | cons t rest => cases h
  · intro h
    have hnode (eof : Option Span) := (complete eof (3 * a.tokens.length + 3)).node h .nil (by omega)
    rw [List.append_nil] at hnode
    exact ⟨_, hnode _, rfl⟩

end TypedErrors

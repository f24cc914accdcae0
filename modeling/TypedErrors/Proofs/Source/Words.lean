import TypedErrors.Proofs.Source.Derives

/-! # Words of types, visibilities and imports

What is read has words that it is written in, but for the separators of names, which may be dots or double colons, and a
last comma in brackets (`WrittenAs`). The texts of the tokens that a type, a visibility or a path is derived from are
such words. -/

namespace TypedErrors

/-! ### Words -/

/-- A name and the names after it, parted by dots. -/
def pathWords : List String → List String
  | [] => []
  | s :: ss => s :: ss.flatMap fun s => [".", s]

def DottedName.words (p : DottedName) : List String := pathWords p.parts

mutual

def TypeExpr.words : TypeExpr → List String
  | .union first more => first.words ++ TypeAtom.wordsMore more

def TypeAtom.words : TypeAtom → List String
  | .plain path => path.words
  | .subscripted path first more => path.words ++ "[" :: (first.words ++ TypeArg.wordsMore more ++ ["]"])

def TypeArg.words : TypeArg → List String
  | .type t => t.words
  | .list [] => ["[", "]"]
  | .list (first :: more) => "[" :: (first.words ++ TypeArg.wordsMore more ++ ["]"])
  | .literal text => [text]
  | .ellipsis => ["..."]

def TypeAtom.wordsMore : List TypeAtom → List String
  | [] => []
  | a :: more => "|" :: (a.words ++ TypeAtom.wordsMore more)

def TypeArg.wordsMore : List TypeArg → List String
  | [] => []
  | a :: more => "," :: (a.words ++ TypeArg.wordsMore more)

end

def Visibility.words : Visibility → List String
  | .pub => ["pub"]
  | .crate => ["pub", "(", "crate", ")"]
  | .inherited => []
  | .restricted path byPath => "pub" :: "(" :: ((if byPath then ["in"] else []) ++ pathWords path ++ [")"])

def Import.words (i : Import) : List String :=
  "use" :: (i.path.words ++ (i.alias?.elim [] fun s => ["as", s]) ++ [";"])

/-- The words are written as others: a dot may be two colons, and a comma may stand before a closing bracket. -/
inductive WrittenAs : List String → List String → Prop
  | nil : WrittenAs [] []
  | word {w : String} {ws ws' : List String} (h : WrittenAs ws ws') : WrittenAs (w :: ws) (w :: ws')
  | separator {ws ws' : List String} (h : WrittenAs ws ws') : WrittenAs ("." :: ws) ("::" :: ws')
  | comma {ws ws' : List String} (h : WrittenAs ws ("]" :: ws')) : WrittenAs ws ("," :: "]" :: ws')

namespace WrittenAs

variable {ws ws' vs vs' : List String} {w : String}

theorem append (h : WrittenAs ws ws') (h' : WrittenAs vs vs') : WrittenAs (ws ++ vs) (ws' ++ vs') := by
  induction h with
  | nil => exact h'
  | word _ ih => exact .word ih
  | separator _ ih => exact .separator ih
  | comma _ ih => exact .comma ih

theorem refl : ∀ ws : List String, WrittenAs ws ws
  | [] => .nil
  | _ :: ws => .word (.refl ws)

theorem ne_nil (h : WrittenAs ws ws') (hws : ws ≠ []) : ws' ≠ [] := by
  cases h with
  | nil => exact hws
  | _ => exact List.cons_ne_nil _ _

end WrittenAs

/-! ### Sites -/

theorem Site.exists_of_admits {site : Site} {k : Option Terminal} (h : site.admits k = true) (hend : site.mayEnd = false) :
    ∃ t ∈ site.accepts, k = some t := by
  cases k with
  | none => cases hend.symm.trans h
  | some t => exact ⟨t, List.contains_iff_mem.mp h, rfl⟩

/-- What fits a site for one terminal only. -/
theorem ahead_of_only {t : Terminal} {k : Option Terminal} (h : Site.admits ⟨[t], false⟩ k = true) : k = some t := by
  obtain ⟨u, hu, rfl⟩ := Site.exists_of_admits h rfl
  rw [List.mem_singleton.mp hu]

/-- What fits a site for one of two terminals, and is not the first. -/
theorem ahead_of_pair {t u : Terminal} {k : Option Terminal} (h : Site.admits ⟨[t, u], false⟩ k = true)
    (hk : k ≠ some t) : k = some u := by
  obtain ⟨v, hv, rfl⟩ := Site.exists_of_admits h rfl
  rcases List.mem_pair.mp hv with rfl | rfl
  · exact absurd rfl hk
  · rfl

/-- What fits a site for one of three terminals, and is none of the first two. -/
theorem ahead_of_triple {t u v : Terminal} {k : Option Terminal} (h : Site.admits ⟨[t, u, v], false⟩ k = true)
    (ht : k ≠ some t) (hu : k ≠ some u) : k = some v := by
  obtain ⟨w, hw, rfl⟩ := Site.exists_of_admits h rfl
  rcases List.mem_cons.mp hw with rfl | hw
  · exact absurd rfl ht
  rcases List.mem_pair.mp hw with rfl | rfl
  · exact absurd rfl hu
  · rfl

theorem Token.text_of_spelling {t : Token} {s : String} (h : Scan.Spelling t.terminal t.text.toList)
    (hs : t.terminal.symbol? = some s ∨ t.terminal.word? = some s) : t.text = s :=
  String.toList_inj.mp (h.1 s hs)

namespace Parse

variable {ahead : Option Terminal}

/-! ### Paths -/

/-- The separator ahead is a dot or two colons. -/
def IsSeparator (ahead : Option Terminal) : Prop := ahead = some .dot ∨ ahead = some .pathSep

theorem writtenAs_separator {sep : Token} (hsep : IsSeparator (some sep.terminal))
    (hspelling : Scan.Spelling sep.terminal sep.text.toList) : WrittenAs ["."] [sep.text] := by
  rcases hsep with hsep | hsep
  · rw [Token.text_of_spelling (s := ".") hspelling (by rw [Option.some.inj hsep]; exact .inl rfl)]
    exact .refl ["."]
  · rw [Token.text_of_spelling (s := "::") hspelling (by rw [Option.some.inj hsep]; exact .inl rfl)]
    exact .separator .nil

theorem pathRest_derives : ∀ (n : Nat) (acc : List String) (ahead : Option Terminal),
    Derives [] ahead (pathRest n acc) fun ts _ ss =>
      ∃ more, ss = acc.reverse ++ more ∧ WrittenAs (more.flatMap fun s => [".", s]) (ts.map Token.text)
  | 0, _, _ => .exhausted
  | n + 1, acc, ahead => by
    have hstep (hahead : IsSeparator ahead) : Derives [] ahead (do
        let _ ← shift .segment
        check .name
        let t ← shift .pathNext
        pathRest n (t.text :: acc)) fun ts _ ss =>
          ∃ more, ss = acc.reverse ++ more ∧ WrittenAs (more.flatMap fun s => [".", s]) (ts.map Token.text) := by
      refine .bind_shift fun sep _ hsep hspelling _ => .bind_check fun _ => .bind_shift fun t _ _ _ _ => ?_
      refine .part (pathRest_derives n _ _) ?_
      rintro us _ _ ⟨more, rfl, hmore⟩
      refine ⟨t.text :: more, by simp, ?_⟩
      exact (writtenAs_separator (hsep ▸ hahead) hspelling).append (.word hmore)
    refine .bind_peek ?_
    split
    · exact hstep (.inl rfl)
    · exact hstep (.inr rfl)
    · exact .pure ⟨[], (List.append_nil _).symm, .nil⟩

theorem path_derives (n : Nat) : Derives [] ahead (path n) fun ts _ p => WrittenAs p.words (ts.map Token.text) := by
  refine .bind_shift fun t _ _ _ _ => .bind_part (pathRest_derives n _ _) ?_
  rintro us _ _ ⟨more, rfl, hmore⟩
  exact .pure (.word hmore)

/-! ### Types -/

theorem text_of_terminal {t : Token} {k : Terminal} (s : String) (hk : k.symbol? = some s ∨ k.word? = some s)
    (ht : some k = some t.terminal) (hspelling : Scan.Spelling t.terminal t.text.toList) : t.text = s :=
  Token.text_of_spelling hspelling (Option.some.inj ht ▸ hk)

mutual

theorem typeExpr_derives (n : Nat) (ahead : Option Terminal) :
    Derives [] ahead (typeExpr n) fun ts _ e => WrittenAs e.words (ts.map Token.text) := by
  cases n with
  | zero => exact .exhausted
  | succ n =>
    refine .bind_part (typeAtom_derives n _) fun us k a ha => .bind_part (typeMore_derives n [] _) ?_
    rintro vs _ _ ⟨more, rfl, hmore⟩
    refine .pure ?_
    rw [List.nil_append, List.map_append]
    exact ha.append hmore

theorem typeMore_derives (n : Nat) (acc : List TypeAtom) (ahead : Option Terminal) :
    Derives [] ahead (typeMore n acc) fun ts _ as =>
      ∃ more, as = acc.reverse ++ more ∧ WrittenAs (TypeAtom.wordsMore more) (ts.map Token.text) := by
  cases n with
  | zero => exact .exhausted
  | succ n =>
    refine .bind_peek ?_
    split
    · refine .bind_shift fun t _ ht hspelling _ => .bind_part (typeAtom_derives n _) fun us _ a ha => ?_
      refine .part (typeMore_derives n _ _) ?_
      rintro vs _ _ ⟨more, rfl, hmore⟩
      refine ⟨a :: more, by simp, ?_⟩
      rw [List.map_append, List.nil_append, List.singleton_append, List.map_cons,
        text_of_terminal "|" (.inl rfl) ht hspelling]
      exact .word (ha.append hmore)
    · exact .pure ⟨[], (List.append_nil _).symm, .nil⟩

theorem typeAtom_derives (n : Nat) (ahead : Option Terminal) :
    Derives [] ahead (typeAtom n) fun ts _ a => WrittenAs a.words (ts.map Token.text) := by
  cases n with
  | zero => exact .exhausted
  | succ n =>
    refine .bind_part (path_derives n) fun us k p hp => .bind_check fun _ => .bind_peek ?_
    split
    · refine .bind_shift fun t _ ht hspelling _ => .bind_part (typeArg_derives n _) fun vs _ a ha => ?_
      refine .bind_part (typeArgs_derives n [] _) ?_
      rintro ws _ _ ⟨rfl, more, rfl, hmore⟩
      refine .bind_shift fun u _ hu hspelling' _ => .pure ?_
      have ht := text_of_terminal "[" (.inl rfl) ht hspelling
      have hu := text_of_terminal "]" (.inl rfl) hu hspelling'
      simp only [List.nil_append, List.map_append, List.map_cons, List.map_nil, List.append_assoc, List.singleton_append,
        ht, hu]
      exact hp.append (.word (by simpa using ha.append hmore))
    · exact .pure hp

/-- Behind the arguments the closing bracket is ahead. -/
theorem typeArgs_derives (n : Nat) (acc : List TypeArg) (ahead : Option Terminal) :
    Derives [] ahead (typeArgs n acc) fun ts k as => k = some .rightBracket ∧
      ∃ more, as = acc.reverse ++ more ∧ WrittenAs (TypeArg.wordsMore more ++ ["]"]) (ts.map Token.text ++ ["]"]) := by
  cases n with
  | zero => exact .exhausted
  | succ n =>
    refine .bind_check fun hadmits => .bind_peek ?_
    split
    · refine .bind_shift fun t _ ht hspelling _ => .bind_peek ?_
      have ht := text_of_terminal "," (.inl rfl) ht hspelling
      split
      · refine .pure ⟨rfl, [], (List.append_nil _).symm, ?_⟩
        rw [List.nil_append, List.map_singleton, ht]
        exact .comma (.refl ["]"])
      · refine .bind_part (typeArg_derives n _) fun us _ a ha => .part (typeArgs_derives n _ _) ?_
        rintro vs _ _ ⟨hk, more, rfl, hmore⟩
        refine ⟨hk, a :: more, by simp, ?_⟩
        simp only [List.nil_append, List.map_append, List.map_cons, List.append_assoc, List.singleton_append, ht]
        exact .word (by simpa using ha.append hmore)
    · next hcomma => exact .pure ⟨ahead_of_pair hadmits hcomma, [], (List.append_nil _).symm, .refl ["]"]⟩

theorem typeArg_derives (n : Nat) (ahead : Option Terminal) :
    Derives [] ahead (typeArg n) fun ts _ a => WrittenAs a.words (ts.map Token.text) := by
  cases n with
  | zero => exact .exhausted
  | succ n =>
    refine .bind_peek ?_
    split
    · refine .bind_shift fun t _ ht hspelling _ => .bind_peek ?_
      have ht := text_of_terminal "[" (.inl rfl) ht hspelling
      split
      · refine .bind_shift fun u _ hu hspelling' _ => .pure ?_
        rw [List.nil_append, List.singleton_append, List.map_cons, List.map_singleton, ht,
          text_of_terminal "]" (.inl rfl) hu hspelling']
        exact .word (.refl ["]"])
      · refine .bind_part (typeArg_derives n _) fun us _ a ha => .bind_part (typeArgs_derives n [] _) ?_
        rintro vs _ _ ⟨rfl, more, rfl, hmore⟩
        refine .bind_shift fun u _ hu hspelling' _ => .pure ?_
        have hu := text_of_terminal "]" (.inl rfl) hu hspelling'
        simp only [List.nil_append, List.map_append, List.map_cons, List.map_nil, List.append_assoc,
          List.singleton_append, ht, hu]
        exact .word (by simpa using ha.append hmore)
    · exact .bind_shift fun t _ _ _ _ => .pure (.refl [t.text])
    · refine .bind_shift fun t _ ht hspelling _ => .pure ?_
      rw [List.nil_append, List.map_singleton, text_of_terminal "..." (.inl rfl) ht hspelling]
      exact .refl ["..."]
    · exact .bind_part (typeExpr_derives n _) fun us _ e he => .pure he

end

/-! ### Visibilities -/

/-- Behind the scopes the closing parenthesis is ahead. -/
theorem scopes_derives : ∀ (n : Nat) (acc : List String) {ahead : Option Terminal},
    Site.segmentNext.admits ahead = true → Derives [] ahead (scopes n acc) fun ts k ss => k = some .rightParen ∧
      ∃ more, ss = acc.reverse ++ more ∧ WrittenAs (more.flatMap fun s => [".", s]) (ts.map Token.text)
  | 0, _, _, _ => .exhausted
  | n + 1, acc, ahead, hadmits => by
    have hstep (hahead : IsSeparator ahead) : Derives [] ahead (do
        let _ ← shift .segment
        let t ← shift .segmentNext
        scopes n (t.text :: acc)) fun ts k ss => k = some .rightParen ∧
          ∃ more, ss = acc.reverse ++ more ∧ WrittenAs (more.flatMap fun s => [".", s]) (ts.map Token.text) := by
      refine .bind_shift fun sep _ hsep hspelling _ => .bind_shift fun t _ _ _ hadmits => ?_
      refine .part (scopes_derives n _ hadmits) ?_
      rintro us _ _ ⟨hk, more, rfl, hmore⟩
      refine ⟨hk, t.text :: more, by simp, ?_⟩
      exact (writtenAs_separator (hsep ▸ hahead) hspelling).append (.word hmore)
    refine .bind_peek ?_
    split
    · exact hstep (.inl rfl)
    · exact hstep (.inr rfl)
    · next hdot hsep =>
      exact .pure ⟨ahead_of_triple hadmits hsep hdot, [], (List.append_nil _).symm, .nil⟩

/-- Behind a restriction the closing parenthesis is ahead. -/
theorem restriction_derives (n : Nat) : Derives [] ahead (restriction n) fun ts k v => k = some .rightParen ∧
    WrittenAs v.words ("pub" :: "(" :: (ts.map Token.text ++ [")"])) := by
  refine .bind_peek ?_
  split
  · refine .bind_shift fun t _ ht hspelling _ => .bind_shift fun first _ _ _ hadmits => ?_
    refine .bind_part (scopes_derives n [] hadmits) ?_
    rintro us _ _ ⟨rfl, more, rfl, hmore⟩
    refine .pure ⟨rfl, .word (.word ?_)⟩
    simp only [List.nil_append, List.cons_append, List.map_cons, text_of_terminal "in" (.inr rfl) ht hspelling]
    exact .word (.word (hmore.append (.refl [")"])))
  · refine .bind_shift fun t _ ht hspelling hadmits => .pure ⟨ahead_of_only hadmits, .word (.word ?_)⟩
    simp only [List.nil_append, List.map_singleton, text_of_terminal "crate" (.inr rfl) ht hspelling]
    exact .word (.refl [")"])
  · exact .bind_shift fun t _ _ _ hadmits => .pure ⟨ahead_of_only hadmits, .word (.word (.word (.refl [")"])))⟩

/-- What is behind a visibility fits the site, and where there is none nothing is taken. -/
theorem visibility_derives (n : Nat) (next : Site) : Derives [] ahead (visibility n next) fun ts k v =>
    WrittenAs v.words (ts.map Token.text) ∧ (next.admits k = true ∨ k = ahead ∧ k ≠ some .pubWord) := by
  have hend (pre : List Token) (k : Option Terminal) (v : Visibility) (hv : WrittenAs v.words (pre.map Token.text)) :
      Derives pre k (do check next; return v) fun ts k v =>
        WrittenAs v.words (ts.map Token.text) ∧ (next.admits k = true ∨ k = ahead ∧ k ≠ some .pubWord) :=
    .bind_check fun hadmits => .pure ⟨hv, .inl hadmits⟩
  refine .bind_peek ?_
  split
  · refine .bind_shift fun t _ ht hspelling _ => .bind_peek ?_
    have ht := text_of_terminal "pub" (.inr rfl) ht hspelling
    split
    · refine .bind_shift fun u _ hu hspelling' _ => .bind_part (restriction_derives n) ?_
      rintro us _ v ⟨rfl, hv⟩
      refine .bind_shift fun w _ hw hspelling'' _ => .bind_pure (hend _ _ v ?_)
      simpa only [List.nil_append, List.map_append, List.map_cons, List.map_nil, List.append_assoc, List.cons_append,
        ht, text_of_terminal "(" (.inl rfl) hu hspelling', text_of_terminal ")" (.inl rfl) hw hspelling''] using hv
    · refine .bind_pure (hend _ _ .pub ?_)
      rw [List.nil_append, List.map_singleton, ht]
      exact .refl ["pub"]
  · next hne => exact .pure ⟨.nil, .inr ⟨rfl, hne⟩⟩

end Parse
end TypedErrors

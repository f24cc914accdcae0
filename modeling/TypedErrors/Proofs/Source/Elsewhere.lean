import TypedErrors.Proofs.Source.Bounded

/-! # Tokens at other sites

A token that is read at one site is read at another site too where its terminal is accepted. A name must not be one of
the words there, and what comes after a word must not go on with a name (`Lookahead.fetch_elsewhere`). -/

namespace TypedErrors

namespace Scan

variable {accepts accepts' : List Terminal} {u v cs : List Char} {n : Nat} {t : Terminal} {s : String}
  {p : Char → Bool} {docs : Bool}

/-! ### What a token is followed by -/

theorem head_of_countWhile {acc : Nat} (h : countWhile p acc (u ++ v) = acc + u.length) :
    ∀ d ∈ v.head?, p d = false := by
  rintro d hd
  obtain ⟨v, rfl⟩ := List.head?_eq_some_iff.mp hd
  have hlen : ((u ++ d :: v).takeWhile p).length = u.length := by
    rw [countWhile_eq] at h
    omega
  by_contra hp
  rw [List.takeWhile_append] at hlen
  split at hlen
  · rw [List.takeWhile_cons_of_pos (by simpa using hp), List.length_append, List.length_cons] at hlen
    omega
  · next hne => exact hne hlen

/-- A doc comment goes to the end of its line. -/
theorem line_of_doc? (h : doc? (u ++ v) = some u.length) : ∀ d ∈ v.head?, d = '\n' := by
  generalize hcs : u ++ v = cs at h
  unfold doc? at h
  split at h
  · next cs =>
    obtain ⟨x, rfl⟩ : ∃ x, u = '/' :: '/' :: '/' :: x := by
      have hlen := Option.some.inj h
      match u, hcs with
      | a :: b :: c :: x, hcs =>
        simp only [List.cons_append, List.cons.injEq] at hcs
        obtain ⟨rfl, rfl, rfl, -⟩ := hcs
        exact ⟨x, rfl⟩
      | [], _ | [_], _ | [_, _], _ => exact absurd hlen (by simp only [List.length_nil, List.length_cons]; omega)
    obtain rfl : x ++ v = cs := by simpa using hcs
    have hlen : countWhile (fun d => decide (d ≠ '\n')) 0 (x ++ v) = 0 + x.length := by
      have hlen := Option.some.inj h
      simp only [List.length_cons, toLineEnd] at hlen
      omega
    intro d hd
    simpa using head_of_countWhile hlen d hd
  · cases h

theorem nameText_of_name? (h : name? (u ++ v) = some u.length) : NameText u ∧ NotName v := by
  cases u with
  | nil => exact absurd (pos_of_name? h) (Nat.lt_irrefl 0)
  | cons c u =>
    rw [List.cons_append, name?] at h
    split_ifs at h with hstart
    have hcount : countWhile isNamePart 1 (u ++ v) = 1 + u.length := by
      rw [Option.some.inj h, List.length_cons, Nat.add_comm]
    refine ⟨.mk hstart fun d hd => ?_, head_of_countWhile hcount⟩
    by_contra hd'
    have hlocal := countWhile_local (u := u) (v := v) (p := isNamePart) ⟨d, hd, by simpa using hd'⟩ 1
    have hle := countWhile_le isNamePart 1 u
    rw [hlocal, countWhile_eq] at hcount
    have hall := List.takeWhile_eq_self_iff.mp
      ((List.takeWhile_prefix isNamePart).eq_of_length (show (u.takeWhile isNamePart).length = u.length by omega))
    exact hd' (hall d hd)

/-! ### What a token is spelled like -/

/-- The front of `n` characters is a text of the terminal: the one of a symbol or word, a doc comment or a name. -/
structure SpelledAs (t : Terminal) (cs : List Char) (n : Nat) : Prop where
  fixed {s : String} (hs : (t.symbol? <|> t.word?) = some s) : s.toList <+: cs ∧ s.length = n
  doc (ht : t = .doc) : doc? cs = some n
  name (ht : t = .name) : name? cs = some n

theorem symbol?_of_word (h : t.word? = some s) : t.symbol? = none := by
  cases t <;> first | rfl | cases h

theorem spelledAs_of_word (ht : t.word? = some s) (hfront : s.toList <+: cs) (hlen : s.length = n) :
    SpelledAs t cs n where
  fixed hs := by
    rw [symbol?_of_word ht, ht] at hs
    obtain rfl := Option.some.inj hs
    exact ⟨hfront, hlen⟩
  doc hdoc := by cases hdoc ▸ ht
  name hname := by cases hname ▸ ht

theorem spelledAs_of_symbol (ht : t.symbol? = some s) (hfront : s.toList <+: cs) (hlen : s.length = n) :
    SpelledAs t cs n where
  fixed hs := by
    rw [ht] at hs
    obtain rfl := Option.some.inj hs
    exact ⟨hfront, hlen⟩
  doc hdoc := by cases hdoc ▸ ht
  name hname := by cases hname ▸ ht

/-- What a class reads: of the classes doc comments alone matter. -/
theorem spelledAs_of_classRead {k : Terminal} {o : Option Nat} (h : classRead accepts k o = some (t, n))
    (hk : (k.symbol? <|> k.word?) = none) (hname : k ≠ .name) (hdoc : k = .doc → o = doc? cs) : SpelledAs t cs n := by
  obtain ⟨rfl, ho⟩ := classRead_eq_some h
  exact ⟨fun hs => (by cases hk.symm.trans hs), fun ht => hdoc ht ▸ ho, fun ht => absurd ht hname⟩

theorem spelledAs_nameOrWord (h : name? cs = some n) : SpelledAs (nameOrWord accepts (cs.take n)) cs n := by
  rw [nameOrWord]
  cases hfind : accepts.find? fun k => k.word? = some (String.ofList (cs.take n)) with
  | none => exact ⟨fun hs => (by cases hs), fun hdoc => (by cases hdoc), fun _ => h⟩
  | some k =>
    have hword : k.word? = some (String.ofList (cs.take n)) := by simpa using List.find?_some hfind
    refine spelledAs_of_word hword ?_ ?_
    · rw [String.toList_ofList]
      exact List.take_prefix ..
    · rw [← String.length_toList, String.toList_ofList, List.length_take_of_le (le_of_name? h)]

theorem spelled_of_terminal? (h : terminal? accepts cs = some (t, n)) : SpelledAs t cs n := by
  rw [terminal?_eq] at h
  simp only [Option.orElse_eq_orElse, Option.orElse_eq_or, Option.or_eq_some_iff] at h
  rcases h with h | ⟨-, h | ⟨-, h | ⟨-, h | ⟨-, h | ⟨-, h | ⟨-, h | ⟨-, h⟩⟩⟩⟩⟩⟩⟩
  · exact spelledAs_of_classRead h rfl nofun nofun
  · exact spelledAs_of_classRead h rfl nofun fun _ => rfl
  · obtain ⟨⟨k, m⟩, hread, heq⟩ := Option.map_eq_some_iff.mp h
    obtain ⟨rfl, rfl⟩ := Prod.mk.inj heq
    exact spelledAs_nameOrWord (classRead_eq_some hread).2
  · exact spelledAs_of_classRead h rfl nofun nofun
  · exact spelledAs_of_classRead h rfl nofun nofun
  · exact spelledAs_of_classRead h rfl nofun nofun
  · split_ifs at h
    obtain ⟨-, s, hs, hfront, hlen⟩ := fixed?_eq_some h
    exact spelledAs_of_word hs hfront hlen
  · obtain ⟨-, s, hs, hfront, hlen⟩ := fixed?_eq_some h
    exact spelledAs_of_symbol hs hfront hlen

theorem text_of_terminal? (h : terminal? accepts (u ++ v) = some (t, u.length))
    (hs : (t.symbol? <|> t.word?) = some s) : u = s.toList := by
  obtain ⟨hfront, hlen⟩ := (spelled_of_terminal? h).fixed hs
  refine (List.prefix_of_prefix_length_le (List.prefix_append u v) hfront ?_).eq_of_length ?_ <;>
    rw [String.length_toList, hlen]

/-- No reader goes on past what a declaration, variant or field stands behind. -/
theorem stops_of_bounds (h : terminal? accepts (u ++ v) = some (t, u.length)) (ht : t ∈ Terminal.bounds) :
    Stops u := by
  by_cases hdoc : t = .doc
  · have hread := (spelled_of_terminal? h).doc hdoc
    have hpos := pos_of_doc? hread
    cases u with
    | nil => exact absurd hpos (Nat.lt_irrefl 0)
    | cons c u =>
      by_cases hc : c = '/'
      · exact ⟨'/', hc ▸ List.mem_cons_self, by decide⟩
      · rw [List.cons_append, doc?_none hc] at hread
        cases hread
  · have hbounds : ∀ t ∈ Terminal.bounds, t ≠ .doc →
        ∃ s, (t.symbol? <|> t.word?) = some s ∧ s.toList.any isStop = true := by decide
    obtain ⟨s, hs, hstop⟩ := hbounds t ht hdoc
    obtain ⟨c, hc, hstop⟩ := List.any_eq_true.mp hstop
    exact ⟨c, text_of_terminal? h hs ▸ hc, hstop⟩

/-- A token is read where its terminal is accepted, if no other word or name is read there. -/
theorem terminal?_elsewhere (h : terminal? accepts (u ++ v) = some (t, u.length)) (ht : t ∈ accepts')
    (hkind : t = .hash ∨ t = .doc ∨ t = .name ∨ t.isWord = true)
    (hname : t = .name → ∀ w ∈ accepts', w.word? ≠ some (String.ofList u)) (hword : t.isWord = true → NotName v) :
    terminal? accepts' (u ++ v) = some (t, u.length) := by
  have hspelled := spelled_of_terminal? h
  obtain rfl | rfl | rfl | hk := hkind
  · obtain rfl := text_of_terminal? h (s := "#") rfl
    exact terminal?_symbol rfl ht nofun nofun
  · have hread := hspelled.doc rfl
    generalize u ++ v = cs at hread ⊢
    cases cs with
    | nil => cases hread
    | cons c cs =>
      by_cases hc : c = '/'
      · rw [hc] at hread ⊢
        rw [terminal?_slash, hread, classRead_some ht]
      · rw [doc?_none hc] at hread
        cases hread
  · obtain ⟨htext, hrest⟩ := nameText_of_name? (hspelled.name rfl)
    have hread := terminal?_name (s := String.ofList u) (by rwa [String.toList_ofList]) ht (hname rfl) hrest
    rwa [← String.length_toList, String.toList_ofList] at hread
  · obtain ⟨s, hs⟩ := Option.isSome_iff_exists.mp hk
    obtain rfl := text_of_terminal? h (s := s) (by rw [symbol?_of_word hs, hs]; rfl)
    rw [String.length_toList]
    exact terminal?_word hs ht (hword hk)

/-! ### Space and comments -/

theorem trivia_acc (skip acc k : Nat) (u : List Char) : trivia docs skip (k + acc) u = k + trivia docs skip acc u := by
  induction u generalizing skip acc with
  | nil => cases skip <;> rfl
  | cons c u ih =>
    cases skip with
    | succ skip => rw [trivia, trivia, Nat.add_assoc, ih]
    | zero =>
      rw [trivia, trivia]
      split
      · rw [Nat.add_assoc, ih]
      · split
        · rfl
        · split
          · rw [Nat.add_assoc, ih]
          · rfl

/-- The text is gone past where doc comments are accepted. -/
def Skipped (g : List Char) : Prop := ∀ z, trivia true 0 0 (g ++ z) = g.length + trivia true 0 0 z

theorem skipped_of_gap (h : Gap u) : Skipped u := fun z => by
  rw [trivia_gap h, Nat.add_comm 0, trivia_acc]

theorem skipped_of_trivia (hv : v ≠ []) (h : trivia true 0 0 (u ++ v) = u.length) : Skipped u := fun z => by
  rw [trivia_local hv (by rw [h, Nat.zero_add]), Nat.add_comm 0, trivia_acc]

end Scan

namespace Lookahead

variable {site site' : Site} {last : Option Token} {c c' : Cursor} {a : Lookahead} {t : Token} {g g' z : List Char}

/-- A token is fetched at another site behind other space and comments. -/
theorem fetch_elsewhere (h : fetch site last c = .ok a) (ht : a.token? = some t) (hsite : .doc ∈ site.accepts)
    (hsite' : .doc ∈ site'.accepts) (hrest : c.rest = g ++ z) (hg : Scan.Skipped g) (hrest' : c'.rest = g' ++ z)
    (hg' : Scan.Skipped g') (haccepts : t.terminal ∈ site'.accepts)
    (hkind : t.terminal = .hash ∨ t.terminal = .doc ∨ t.terminal = .name ∨ t.terminal.isWord = true)
    (hname : t.terminal = .name → ∀ w ∈ site'.accepts, w.word? ≠ some t.text)
    (hword : t.terminal.isWord = true → NotName a.after.rest) (last' : Option Token) :
    ∃ a', fetch site' last' c' = .ok a' ∧ a.Agrees a' := by
  obtain ⟨m, hm, htrivia, hread⟩ := gap_of_fetch h ht
  rw [List.contains_iff_mem.mpr hsite, hrest, hg] at htrivia
  have hsplit : g ++ z = m ++ (t.text.toList ++ a.after.rest) := hrest.symm.trans hm
  obtain ⟨k, rfl, hz⟩ : ∃ k, m = g ++ k ∧ z = k ++ (t.text.toList ++ a.after.rest) := by
    obtain ⟨k, hk, hz⟩ | ⟨k, hk, hz⟩ := List.append_eq_append_iff.mp hsplit
    · exact ⟨k, hk, hz⟩
    · obtain rfl : k = [] := by
        rw [hk, List.length_append] at htrivia
        exact List.eq_nil_of_length_eq_zero (by omega)
      exact ⟨[], by rw [hk, List.append_nil, List.append_nil], hz.symm⟩
  have hread' := Scan.terminal?_elsewhere hread haccepts hkind (by rwa [String.ofList_toList]) hword
  have hgap : c'.rest = (g' ++ k) ++ (t.text.toList ++ a.after.rest) := by rw [hrest', hz, List.append_assoc]
  have htrivia' : Scan.trivia (site'.accepts.contains .doc) 0 0 c'.rest = (g' ++ k).length := by
    rw [List.contains_iff_mem.mpr hsite', hrest', hg', List.length_append]
    rw [List.length_append] at htrivia
    omega
  obtain ⟨a', t', ha', ht', hterminal, htext, hafter⟩ := fetch_of_gap hgap htrivia' hread' last'
  refine ⟨a', ha', ?_, hafter⟩
  rw [lexeme?, lexeme?, ht, ht', Option.map_some, Option.map_some, Token.lexeme, Token.lexeme, hterminal,
    String.toList_inj.mp htext]

end Lookahead
end TypedErrors

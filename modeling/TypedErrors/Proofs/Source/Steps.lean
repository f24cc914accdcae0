import TypedErrors.Proofs.Source.Behind
import TypedErrors.Proofs.Source.Elsewhere
import TypedErrors.Proofs.Source.Scanned
import TypedErrors.Proofs.Source.Words

/-! # Steps of a reading

A step is a token that is taken, with the site of what follows it (`Walk`). What a parser returns is traced to the steps
that it makes (`Traces`), and a parser retraces steps that are there (`Retraces`). There is one rule of either for each
thing that a parser can do. -/

namespace TypedErrors

/-- A token that is taken, and the site of what follows. -/
structure Step where
  lexeme : Lexeme
  next : Site

/-- The steps lead from what is ahead first to what is ahead then. -/
inductive Walk : Lookahead → List Step → Lookahead → Prop
  | nil {a : Lookahead} : Walk a [] a
  | cons {a b c : Lookahead} {t : Token} {s : Step} {ss : List Step} (ht : a.token? = some t) (hs : t.lexeme = s.lexeme)
      (hb : Lookahead.fetch s.next (some t) a.after = .ok b) (h : Walk b ss c) : Walk a (s :: ss) c

/-- The terminal ahead of the steps, behind which `k` is ahead. -/
def headOf : List Step → Option Terminal → Option Terminal
  | [], k => k
  | s :: _, _ => some s.lexeme.terminal

variable {a a' b c : Lookahead} {s : Step} {ss us : List Step} {site : Site} {k : Option Terminal} {l : Lexeme}

theorem headOf_append : headOf (ss ++ us) k = headOf ss (headOf us k) := by
  cases ss <;> rfl

/-- What is ahead is fetched at the site. -/
def Lookahead.FetchedAt (site : Site) (a : Lookahead) : Prop := ∃ last c, fetch site last c = .ok a

namespace Walk

theorem append (h : Walk a ss b) (h' : Walk b us c) : Walk a (ss ++ us) c := by
  induction h with
  | nil => exact h'
  | cons ht hs hb _ ih => exact .cons ht hs hb (ih h')

theorem split (h : Walk a (ss ++ us) c) : ∃ b, Walk a ss b ∧ Walk b us c := by
  induction ss generalizing a with
  | nil => exact ⟨a, .nil, h⟩
  | cons s ss ih =>
    obtain _ | ⟨ht, hs, hb, h⟩ := h
    obtain ⟨b, hss, hus⟩ := ih h
    exact ⟨b, .cons ht hs hb hss, hus⟩

theorem head (h : Walk a ss b) : a.head? = headOf ss b.head? := by
  cases h with
  | nil => rfl
  | cons ht hs => rw [headOf, ← hs, Lookahead.head?, ht]; rfl

theorem lexeme (h : Walk a (s :: ss) b) : a.lexeme? = some s.lexeme := by
  cases h with
  | cons ht hs => rw [← hs, Lookahead.lexeme?, ht]; rfl

theorem takes (h : Walk a ss b) : ∃ ts, Takes a ts b ∧ ts.map Token.lexeme = ss.map Step.lexeme := by
  induction h with
  | nil => exact ⟨[], .nil, rfl⟩
  | cons ht hs hb _ ih =>
    obtain ⟨ts, hts, hmap⟩ := ih
    exact ⟨_, .cons ht hb hts, by rw [List.map_cons, List.map_cons, hs, hmap]⟩

theorem fetched (h : Walk a ss b) (ha : a.FetchedAt site) : ∃ site', b.FetchedAt site' := by
  induction h generalizing site with
  | nil => exact ⟨site, ha⟩
  | cons _ _ hb _ ih => exact ih ⟨_, _, hb⟩

/-- Readings that agree go on with the same steps. -/
theorem agrees (h : Walk a ss b) (ha : a.Agrees a') : ∃ b', Walk a' ss b' ∧ b.Agrees b' := by
  induction h generalizing a' with
  | nil => exact ⟨a', .nil, ha⟩
  | cons ht hs hb _ ih =>
    obtain ⟨t', ht', hs'⟩ := Lookahead.exists_token ha.1 ht
    obtain ⟨c', hc', hagrees⟩ := Lookahead.fetch_agrees ha.2 hb
    obtain ⟨b', hb', hagrees⟩ := ih hagrees
    exact ⟨b', .cons ht' (hs'.trans hs) hc' hb', hagrees⟩

/-- There are no more steps than characters. -/
theorem length_le {source : List Char} (h : Walk a ss b) (ha : a.Stands source) : ss.length ≤ a.front.length := by
  induction h with
  | nil => exact Nat.zero_le _
  | cons ht _ hb _ ih =>
    obtain ⟨q, hq⟩ := ha.after
    obtain ⟨accepts, hread⟩ := ha.read _ ht
    have hpos := Scan.pos_of_terminal? hread
    have hle := (Lookahead.front_suffix hb).length_le
    have hrest := ih (Lookahead.stands_of_fetch hq hb)
    rw [Lookahead.front_of_token ht, List.length_append, List.length_cons]
    omega

end Walk

/-! ### Lexemes that are read -/

namespace Scan

variable {accepts : List Terminal} {u v cs : List Char} {n acc : Nat} {t : Terminal}

theorem stringBody_of_stringRest? (h : stringRest? acc cs = some n) :
    ∃ body rest, cs = body ++ '"' :: rest ∧ StringBody body ∧ n = acc + body.length + 1 := by
  fun_induction stringRest? acc cs with
  | case1 acc rest => exact ⟨[], rest, rfl, .nil, (Option.some.inj h).symm⟩
  | case2 => cases h
  | case3 acc c cs hline ih =>
    obtain ⟨body, rest, rfl, hbody, rfl⟩ := ih h
    exact ⟨'\\' :: c :: body, rest, rfl, .escape hline hbody, by simp only [List.length_cons]; omega⟩
  | case4 => cases h
  | case5 acc c cs hquote _ hne ih =>
    obtain ⟨body, rest, rfl, hbody, rfl⟩ := ih h
    obtain ⟨hslash, hline⟩ := not_or.mp hne
    have hquote : c ≠ '"' := fun hc => hquote hc
    exact ⟨c :: body, rest, rfl, .plain hquote hslash hline hbody, by simp only [List.length_cons]; omega⟩
  | case6 => cases h

theorem quotedText_of_string? (h : string? (u ++ v) = some u.length) : QuotedText u := by
  generalize hcs : u ++ v = cs at h
  unfold string? at h
  split at h
  · obtain ⟨body, rest, rfl, hbody, hlen⟩ := stringBody_of_stringRest? h
    have hsplit : u ++ v = ('"' :: (body ++ ['"'])) ++ rest := by simpa using hcs
    obtain ⟨rfl, -⟩ := List.append_inj hsplit (by rw [hlen, List.length_cons, List.length_append]; simp; omega)
    exact .mk hbody
  · cases h

/-- Where words are accepted, none of them is read as a name. -/
theorem ne_word_of_terminal? (h : terminal? accepts (u ++ v) = some (.name, u.length)) :
    ∀ w ∈ accepts, w.word? ≠ some (String.ofList u) := by
  obtain ⟨htext, hrest⟩ := nameText_of_name? ((spelled_of_terminal? h).name rfl)
  have haccepts := mem_of_terminal? h
  rw [terminal?_nameText htext hrest, if_pos haccepts, nameOrWord] at h
  intro w hw hword
  have hfound : (accepts.find? fun t => t.word? = some (String.ofList u)).isSome = true :=
    List.find?_isSome.mpr ⟨w, hw, by simp [hword]⟩
  obtain ⟨t, ht⟩ := Option.isSome_iff_exists.mp hfound
  rw [ht] at h
  obtain rfl : t = .name := (Prod.mk.inj (Option.some.inj h)).1
  simpa [Terminal.word?] using List.find?_some ht

end Scan

/-- The lexeme is a name that is none of the words of the site, a quoted text, or spelled as its terminal is. -/
structure Lexeme.ReadAt (site : Site) (l : Lexeme) : Prop where
  name (hl : l.terminal = .name) : NameText l.text.toList
  word (hl : l.terminal = .name) : ∀ w ∈ site.accepts, w.word? ≠ some l.text
  string (hl : l.terminal = .string) : QuotedText l.text.toList
  symbol {s : String} (hs : l.terminal.symbol? = some s) : l = l.terminal.lexeme

theorem Lookahead.FetchedAt.readAt {t : Token} (h : a.FetchedAt site) (ht : a.token? = some t) :
    t.lexeme.ReadAt site := by
  obtain ⟨last, c, h⟩ := h
  obtain ⟨gap, -, -, hread⟩ := gap_of_fetch h ht
  refine ⟨fun hname => ?_, fun hname => ?_, fun hstring => ?_, fun {s} hs => ?_⟩
  · exact (Scan.nameText_of_name? ((Scan.spelled_of_terminal? hread).name hname)).1
  · rw [show t.terminal = .name from hname] at hread
    have hword := Scan.ne_word_of_terminal? hread
    rwa [String.ofList_toList] at hword
  · refine Scan.quotedText_of_string? ((Scan.reads_of_terminal? hread).1 hstring)
  · have htext : t.text = s := Token.text_of_spelling (spelt_of_fetch h t ht) (.inl hs)
    rw [Terminal.lexeme, hs, ← htext]
    rfl

/-! ### Tracing what is returned -/

variable {α β : Type} {x : Parse α} {f : α → Parse β} {v : α} {t : Token}

/-- When the terminal is ahead, fetched at the site, and the parser returns, it makes steps, and `Q` holds of these, of
the terminal ahead then and of what is returned. -/
def Traces (site : Site) (ahead : Option Terminal) (x : Parse α) (Q : List Step → Option Terminal → α → Prop) : Prop :=
  ∀ a v b, a.FetchedAt site → a.head? = ahead → x a = .ok (v, b) → ∃ ss, Walk a ss b ∧ Q ss b.head? v

namespace Traces

variable {ahead : Option Terminal} {P P' : List Step → Option Terminal → α → Prop}
  {Q : List Step → Option Terminal → β → Prop}

theorem pure (h : P [] ahead v) : Traces site ahead (Pure.pure v) P := by
  rintro a w b - rfl hw
  obtain ⟨rfl, rfl⟩ := Prod.mk.inj (Except.ok.inj hw)
  exact ⟨[], .nil, h⟩

theorem exhausted : Traces site ahead Parse.exhausted P := by
  intro a v b _ _ h
  cases h

theorem mono (hx : Traces site ahead x P) (h : ∀ ss k v, P ss k v → P' ss k v) : Traces site ahead x P' := by
  intro a v b ha hahead hv
  obtain ⟨ss, hss, hP⟩ := hx a v b ha hahead hv
  exact ⟨ss, hss, h _ _ _ hP⟩

theorem bind (hx : Traces site ahead x P) (hf : ∀ site ss k v, P ss k v →
    Traces site k (f v) fun us k' w => Q (ss ++ us) k' w) : Traces site ahead (x >>= f) Q := by
  intro a w b ha hahead hw
  obtain ⟨v, c, hv, hw⟩ := Parse.bind_eq_ok.mp hw
  obtain ⟨ss, hss, hP⟩ := hx a v c ha hahead hv
  obtain ⟨site', hc⟩ := hss.fetched ha
  obtain ⟨us, hus, hQ⟩ := hf site' ss _ v hP c w b hc rfl hw
  exact ⟨ss ++ us, hss.append hus, hQ⟩

theorem bind_peek {f : Option Terminal → Parse β} (hf : Traces site ahead (f ahead) Q) :
    Traces site ahead (Parse.peek >>= f) Q := by
  intro a w b ha hahead hw
  rw [Parse.peek_bind, hahead] at hw
  exact hf a w b ha hahead hw

theorem bind_check {f : Unit → Parse β} {next : Site} (hf : next.admits ahead = true → Traces site ahead (f ()) Q) :
    Traces site ahead (Parse.check next >>= f) Q := by
  intro a w b ha hahead hw
  obtain ⟨hadmits, hw⟩ := Parse.bind_check_eq_ok.mp hw
  exact hf (hahead ▸ hadmits) a w b ha hahead hw

theorem bind_shift {f : Token → Parse β} {next : Site} (hf : ∀ t k, ahead = some t.terminal → t.lexeme.ReadAt site →
    next.admits k = true → Traces next k (f t) fun us k' w => Q (⟨t.lexeme, next⟩ :: us) k' w) :
    Traces site ahead (Parse.shift next >>= f) Q := by
  intro a w b ha hahead hw
  obtain ⟨t, c, ht, hw⟩ := Parse.bind_eq_ok.mp hw
  obtain ⟨htoken, hfetch⟩ := Parse.shift_eq_ok.mp ht
  have hterminal : ahead = some t.terminal := by rw [← hahead, Lookahead.head?, htoken, Option.map_some]
  obtain ⟨us, hus, hQ⟩ := hf t c.head? hterminal (ha.readAt htoken) (Lookahead.admits_of_fetch hfetch) c w b
    ⟨_, _, hfetch⟩ rfl hw
  exact ⟨_ :: us, .cons htoken rfl hfetch hus, hQ⟩

end Traces

/-! ### Retracing steps -/

/-- Where the steps lead to the terminal ahead, the parser makes them, and `P` holds of what it returns. -/
def Retraces (x : Parse α) (ss : List Step) (k : Option Terminal) (P : α → Prop) : Prop :=
  ∀ a b, Walk a ss b → b.head? = k → ∃ v, x a = .ok (v, b) ∧ P v

namespace Retraces

variable {P P' : α → Prop} {Q : β → Prop}

theorem mono (hx : Retraces x ss k P) (h : ∀ v, P v → P' v) : Retraces x ss k P' := by
  intro a b hwalk hk
  obtain ⟨v, hv, hP⟩ := hx a b hwalk hk
  exact ⟨v, hv, h v hP⟩

theorem pure (h : P v) : Retraces (Pure.pure v) [] k P := by
  rintro a b ⟨⟩ -
  exact ⟨v, rfl, h⟩

theorem bind (hx : Retraces x ss (headOf us k) P) (hf : ∀ v, P v → Retraces (f v) us k Q) :
    Retraces (x >>= f) (ss ++ us) k Q := by
  rintro a b hwalk rfl
  obtain ⟨c, hss, hus⟩ := hwalk.split
  obtain ⟨v, hv, hP⟩ := hx a c hss hus.head
  obtain ⟨w, hw, hQ⟩ := hf v hP c b hus rfl
  exact ⟨w, Parse.bind_eq_ok.mpr ⟨v, c, hv, hw⟩, hQ⟩

/-- The rule where all the steps are made. -/
theorem bind_nil (hx : Retraces x ss k P) (hf : ∀ v, P v → Retraces (f v) [] k Q) : Retraces (x >>= f) ss k Q := by
  rw [← List.append_nil ss]
  exact hx.bind hf

theorem bind_peek {f : Option Terminal → Parse β} (hf : Retraces (f (headOf ss k)) ss k Q) :
    Retraces (Parse.peek >>= f) ss k Q := by
  rintro a b hwalk rfl
  rw [Parse.peek_bind, hwalk.head]
  exact hf a b hwalk rfl

theorem bind_check {f : Unit → Parse β} (h : site.admits (headOf ss k) = true) (hf : Retraces (f ()) ss k Q) :
    Retraces (Parse.check site >>= f) ss k Q := by
  rintro a b hwalk rfl
  obtain ⟨w, hw, hQ⟩ := hf a b hwalk rfl
  exact ⟨w, Parse.bind_check_eq_ok.mpr ⟨hwalk.head ▸ h, hw⟩, hQ⟩

theorem bind_shift {f : Token → Parse β} (hf : ∀ t : Token, t.lexeme = l → Retraces (f t) ss k Q) :
    Retraces (Parse.shift site >>= f) (⟨l, site⟩ :: ss) k Q := by
  rintro a b hwalk rfl
  obtain _ | ⟨ht, hs, hc, hss⟩ := hwalk
  obtain ⟨w, hw, hQ⟩ := hf _ hs _ b hss rfl
  exact ⟨w, (Parse.bind_of_ok (Parse.shift_eq_ok.mpr ⟨ht, hc⟩)).trans hw, hQ⟩

end Retraces
end TypedErrors

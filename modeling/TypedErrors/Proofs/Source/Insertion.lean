import TypedErrors.Proofs.Source.Cut
import TypedErrors.Proofs.Source.Elsewhere
import TypedErrors.Proofs.Source.Inserted

/-! # One more attribute block or doc comment in a source

A text that is an attribute block or a doc comment is inserted in front of a declaration, variant or field. The source
is loaded as before then, with the part at its place, unless what is behind it is read otherwise there: after an
attribute block or a doc comment the words `struct`, `enum`, `union` and `pub` are no names (`loadSource_insert`). -/

namespace TypedErrors

open Lookahead

/-! ### Texts of parts, and places in a source -/

/-- The text is an attribute block or a doc comment, with space and comments around it: in front of a word it is read
alone. -/
def HeaderPart.WrittenAs (file : String) (x : HeaderPart) (text : String) : Prop :=
  ∃ a b, fetch .outerNext none (.ofString (text ++ "struct")) = .ok a ∧ Read file text.length a b x ∧
    b.lexeme? = some Terminal.structWord.lexeme ∧ b.after.rest = []

/-- In the source made of the two texts the place is between them: in front of what is ahead, behind the token before it
and space and comments. A doc comment before is at the end of its line. -/
structure InFront (file pre post : String) (place : HeaderPlace) (ahead : Lookahead) : Prop where
  reached : ∃ a, fetch .items none (.ofString (pre ++ post)) = .ok a ∧ PlaceTo file a place ahead
  gap : ∃ front gap, pre.toList = front ++ gap ∧ Gap gap ∧
    (ahead.last.map (·.stop)).getD {} = Position.past {} front ∧ ∀ t, ahead.last = some t → t.terminal = .doc → gap ≠ []

/-- What is ahead is read as it is after an attribute block, too: a name is none of the words that may come there, and a
word is not the front of a longer name. -/
structure Lookahead.Plain (a : Lookahead) : Prop where
  name : ∀ t, a.token? = some t → t.terminal = .name → ∀ w ∈ Site.outerNext.accepts, w.word? ≠ some t.text
  word : ∀ t, a.token? = some t → t.terminal.isWord = true → NotName a.after.rest

/-! ### Cuts at places -/

section

variable {file text : String} {source pre v w gap post : List Char} {a goal b' : Lookahead} {x : HeaderPart} {e : Nat}
  {site : Site} {last : Option Token} {c c' : Cursor}

/-- A source may be cut behind any token that stands in front of a declaration, variant or field. -/
theorem cut_of_leads (ha : a.Stands source) (hlast : a.last = none) (h : a.Leads goal) (hgoal : goal.Bounded .outerNext)
    (hsource : source = pre ++ v) (hstop : ∀ t, goal.last = some t → t.stop = Position.past {} pre)
    (hline : ∀ t, goal.last = some t → t.terminal = .doc → (∀ d ∈ v.head?, d = '\n') → ∀ d ∈ w.head?, d = '\n') :
    Cut source goal pre v w := by
  obtain ⟨ts, hts⟩ := h
  have hread (t : Token) (ht : goal.last = some t) : ∃ accepts,
      Scan.terminal? accepts (t.text.toList ++ v) = some (t.terminal, t.text.toList.length) := by
    obtain ⟨accepts, q, rest, hq, hpast, hread⟩ := hts.last_read ha hlast ht
    have hsplit : q ++ rest = pre ++ v := hq.symm.trans hsource
    obtain rfl := Position.past_injective hsplit (hpast.symm.trans (hstop t ht))
    obtain rfl := List.append_cancel_left hsplit
    exact ⟨accepts, hread⟩
  refine ⟨hsource, hstop, fun t ht => ?_, fun t ht hdoc => ?_⟩
  · obtain ⟨accepts, hread⟩ := hread t ht
    exact Scan.stops_of_bounds hread (hgoal.last t ht)
  · obtain ⟨accepts, hread⟩ := hread t ht
    exact hline t ht hdoc (Scan.line_of_doc? ((Scan.spelled_of_terminal? hread).doc hdoc))

/-- The part is ahead, and the goal behind it. -/
def HeaderPart.Ahead (file : String) (e : Nat) (goal b : Lookahead) (x : HeaderPart) : Prop :=
  b.Opens ∧ ∀ n, e ≤ n → ∃ x' b', Read file n b b' x' ∧ x'.unspanned = x.unspanned ∧ goal.Agrees b'

/-- Where the part is ahead in the second text, it is spliced in. -/
def Cut.splice (K : Cut source goal pre v w) (hgoal : goal.Stands source) (he : 1 ≤ e)
    (hland : ∀ {site : Site} {last last' : Option Token} {c c' : Cursor}, c.rest = v → c'.rest = w → site.IsOpen →
      Lookahead.fetch site last c = .ok goal →
        ∃ b', Lookahead.fetch site last' c' = .ok b' ∧ x.Ahead file e goal b') :
    Splice file x e where
  toLanding := K.landing Site.IsOpen (x.Ahead file e goal) (fun h hsite => hsite.admits h.1) hland
  sites_of_isOpen _ h := h
  opens h := h.1
  apart := fun ⟨_, _, h⟩ => h.apart hgoal
  more := he
  read h hn := h.2 _ hn

theorem Lookahead.Agrees.head (h : a.Agrees b') : b'.head? = a.head? := by
  have hl := congrArg (Option.map Lexeme.terminal) h.1
  rwa [lexeme?, lexeme?, Option.map_map, Option.map_map] at hl

/-- What is ahead behind one text is ahead behind the other, where a token was ahead behind its space and comments. -/
theorem Lookahead.Plain.fetch_behind {g : List Char} {b : Lookahead} {s : Token} {d d' : Cursor} {last' : Option Token}
    (hplain : goal.Plain) (hhead : Site.outerNext.admits goal.head? = true) (hsite : site.IsOpen)
    (h : fetch site last c = .ok goal) (hgap : Gap gap) (hrest : c.rest = gap ++ post)
    (hb : fetch .outerNext last' d = .ok b) (hs : b.token? = some s)
    (hd : d.rest = g ++ (s.text.toList ++ b.after.rest)) (hd' : d'.rest = g ++ post) (last'' : Option Token) :
    ∃ b', fetch .outerNext last'' d' = .ok b' ∧ goal.Agrees b' := by
  obtain ⟨k, hk, hkhead⟩ := exists_head hhead rfl
  obtain ⟨t, ht, rfl⟩ := Option.map_eq_some_iff.mp hkhead
  obtain ⟨g', hd'', htrivia, hread⟩ := gap_of_fetch hb hs
  obtain rfl : g' = g := List.append_cancel_right (hd''.symm.trans hd)
  have hne : s.text.toList ++ b.after.rest ≠ [] :=
    List.append_ne_nil_of_left_ne_nil (List.ne_nil_of_length_pos (Scan.pos_of_terminal? hread)) _
  have hkinds : ∀ k ∈ Site.outerNext.accepts, k = .hash ∨ k = .doc ∨ k = .name ∨ k.isWord = true := by decide
  exact fetch_elsewhere h ht hsite.2 (by decide) hrest (Scan.skipped_of_gap hgap) hd'
    (Scan.skipped_of_trivia hne (hd ▸ htrivia)) hk (hkinds _ hk) (hplain.name t ht) (hplain.word t ht) last''

/-- Behind its cut the second text goes on as the text before `goal'` does. -/
def Cut.onto (K : Cut source goal pre v w) {goal' : Lookahead} (hhead : Site.outerNext.admits goal'.head? = true)
    (hland : ∀ {last last' : Option Token} {c c' : Cursor}, c.rest = v → c'.rest = w →
      Lookahead.fetch .outerNext last c = .ok goal →
        ∃ b', Lookahead.fetch .outerNext last' c' = .ok b' ∧ goal'.Agrees b') : Landing :=
  K.landing (· = .outerNext) goal'.Agrees
    (fun h hsite => by rwa [hsite, h.head])
    (fun hc hc' hsite hgoal => by
      subst hsite
      exact hland hc hc' hgoal)

theorem HeaderPart.Read.lands {L : Landing} {n m : Nat} (hsite : L.sites .outerNext) (h : Read file n a L.goal x)
    (hnm : n ≤ m) {a' : Lookahead} (ha : L.rel a a') :
    ∃ x' b', Read file m a' b' x' ∧ x'.unspanned = x.unspanned ∧ L.lands b' := by
  cases h with
  | block hhead h =>
    obtain ⟨r, b', hr, hlands, heq⟩ := (Landing.attributeBlock_lands hsite hnm).step ha h
    exact ⟨.block r, b', .block ((L.head ha).trans hhead) hr, congrArg HeaderPart.block heq, hlands⟩
  | doc hhead h =>
    obtain ⟨t, b', ht, hlands, heq⟩ := (Landing.Lands.shift hsite).step ha h
    exact ⟨.doc (Parse.docText t), b', .doc ((L.head ha).trans hhead) ht,
      congrArg HeaderPart.doc (Coupling.docText_eq heq), hlands⟩

theorem HeaderPart.Read.opens {n : Nat} {b : Lookahead} (h : Read file n a b x) : a.Opens := by
  cases h with
  | block ha _ => exact ⟨_, ha, .inl rfl⟩
  | doc ha _ => exact ⟨_, ha, .inr rfl⟩

/-- The start of an attribute block or a doc comment is fetched at every open site. -/
theorem Lookahead.Opens.fetch {site' : Site} (ha : a.Opens) (h : Lookahead.fetch site last c = .ok a)
    (hsite : site.IsOpen) (hsite' : site'.IsOpen) (hgap : Gap gap) (hrest' : c'.rest = gap ++ c.rest)
    (last' : Option Token) :
    ∃ a', Lookahead.fetch site' last' c' = .ok a' ∧ a.Agrees a' := by
  obtain ⟨k, hk, hopen⟩ := ha
  obtain ⟨t, ht, rfl⟩ := Option.map_eq_some_iff.mp hk
  have haccepts : t.terminal ∈ site'.accepts := by
    rcases hopen with heq | heq <;> rw [heq]
    · exact hsite'.1
    · exact hsite'.2
  have hname : t.terminal ≠ .name := by rcases hopen with heq | heq <;> rw [heq] <;> nofun
  have hword : ¬ t.terminal.isWord = true := by rcases hopen with heq | heq <;> rw [heq] <;> nofun
  exact fetch_elsewhere h ht hsite.2 hsite'.2 (List.nil_append _).symm (Scan.skipped_of_gap .nil) hrest'
    (Scan.skipped_of_gap hgap) haccepts (hopen.imp_right .inl) (fun heq => absurd heq hname)
    (fun heq => absurd heq hword) last'

/-- The reading of the text in front of a word: from `a` to `b`, which is behind the front `q` and the gap `g`. Whatever
comes behind the gap, the text is read alike up to there. -/
structure HeaderPart.Written (file : String) (x : HeaderPart) (text : String) (a b : Lookahead) (q g : List Char) :
    Prop where
  fetched : fetch .outerNext none (.ofString (text ++ "struct")) = .ok a
  read : Read file text.length a b x
  takes : ∃ t ts, Takes a (t :: ts) b
  word : ∃ s, b.token? = some s ∧ s.text.toList ++ b.after.rest = "struct".toList
  front : text.toList = q ++ g
  cut (post : List Char) : Cut (text ++ "struct").toList b q (g ++ "struct".toList) (g ++ post)

theorem HeaderPart.WrittenAs.written (hx : x.WrittenAs file text) : ∃ a b q g, x.Written file text a b q g := by
  obtain ⟨a, b, ha, hread, hword, hnil⟩ := hx
  have hat := Cursor.at_ofString (text ++ "struct")
  have hstands := stands_of_fetch hat ha
  obtain ⟨s, hs, hlexeme⟩ := Option.map_eq_some_iff.mp hword
  have hstruct : s.text.toList ++ b.after.rest = "struct".toList := by
    rw [hnil, show s.text = "struct" from congrArg Lexeme.text hlexeme, List.append_nil]
  obtain ⟨ts, hts⟩ := hread.leads
  cases ts with
  | nil =>
    -- the text would start with the word
    cases hts
    obtain ⟨k, hk, hopen⟩ := hread.opens
    rw [head?, hs, Option.map_some, show s.terminal = .structWord from congrArg Lexeme.terminal hlexeme] at hk
    obtain rfl := Option.some.inj hk
    simp at hopen
  | cons t ts =>
    -- the last token before the word is where the text can be cut
    obtain ⟨us, d, w, _, hd, hw, hfetch⟩ := hts.last_step
    have hdstands := hd.stands hstands
    obtain ⟨q, hq⟩ := hdstands.after
    obtain ⟨g, hg, -⟩ := gap_of_fetch hfetch hs
    rw [hstruct] at hg
    have hsource : (text ++ "struct").toList = q ++ (g ++ "struct".toList) := hg ▸ hq.source
    refine ⟨a, b, q, g, ha, hread, ⟨t, ts, hts⟩, ⟨s, hs, hstruct⟩, ?_, fun post => ?_⟩
    · rw [String.toList_append, ← List.append_assoc] at hsource
      exact List.append_cancel_right hsource
    · refine cut_of_leads hstands (last_of_fetch ha) ⟨_, hts⟩ hread.bounded hsource (fun u hu => ?_) ?_
      · obtain rfl := Option.some.inj ((last_of_fetch hfetch).symm.trans hu)
        exact (hdstands.stop w hw).trans hq.position
      · intro _ _ _ hline
        cases g with
        | nil => cases hline 's' rfl
        | cons => exact hline

/-- Where the goal is fetched in front of one text, the part is fetched in front of the other. -/
theorem HeaderPart.WrittenAs.ahead (hx : x.WrittenAs file text) (hsite : site.IsOpen) (h : fetch site last c = .ok goal)
    (hgap : Gap gap) (hrest : c.rest = gap ++ post) (hrest' : c'.rest = gap ++ (text.toList ++ post))
    (hplain : goal.Plain) (hhead : Site.outerNext.admits goal.head? = true) (last' : Option Token) :
    ∃ b', fetch site last' c' = .ok b' ∧ x.Ahead file text.length goal b' := by
  obtain ⟨a, b, q, g, ha, hread, ⟨t, ts, hts⟩, ⟨s, hs, hstruct⟩, htext, hcut⟩ := hx.written
  have K := hcut post
  have hat := Cursor.at_ofString (text ++ "struct")
  have hstands := stands_of_fetch hat ha
  -- the text is read as in front of the word, at the site and behind the gap, too
  have htail : (Cursor.mk {} (text.toList ++ post)).rest = q ++ (g ++ post) := by rw [htext, List.append_assoc]
  obtain ⟨a₁, ha₁, htwin⟩ := K.fetch hat K.source htail ha hts none
  have hhead₁ : a₁.head? = a.head? := K.coupling.head ⟨hstands, htwin⟩
  have hopens : a₁.Opens := by
    obtain ⟨k, hk, hopen⟩ := hread.opens
    exact ⟨k, hhead₁.trans hk, hopen⟩
  obtain ⟨b', hb', hagrees⟩ := hopens.fetch ha₁ (by decide) hsite hgap hrest' last'
  have hrel : K.coupling.rel a b' := by
    obtain ⟨hlexeme, r, hr, hr₁⟩ := htwin
    exact ⟨hstands, hagrees.1.trans hlexeme, r, hr, hagrees.2.trans hr₁⟩
  -- behind it the goal is ahead
  have hland {last last' : Option Token} {d d' : Cursor} (hd : d.rest = g ++ "struct".toList)
      (hd' : d'.rest = g ++ post) (hb : fetch .outerNext last d = .ok b) :
      ∃ b', fetch .outerNext last' d' = .ok b' ∧ goal.Agrees b' :=
    hplain.fetch_behind hhead hsite h hgap hrest hb hs (hstruct ▸ hd) hd' last'
  obtain ⟨k, hk, hopen⟩ := hopens
  exact ⟨b', hb', ⟨k, hagrees.head.trans hk, hopen⟩, fun n hn => hread.lands (L := K.onto hhead hland) rfl hn hrel⟩

/-! ### Sources -/

variable {limits : Limits} {pre post : String} {place : HeaderPlace} {ahead : Lookahead} {f : SourceFile}

theorem parseSource_eq_ok {source : String} : parseSource file source = .ok f ↔
    ∃ a b, fetch .items none (.ofString source) = .ok a ∧
      Parse.items file (source.length + 2) [] [] a = .ok (f, b) := by
  rw [parseSource, bind_eq_ok]
  constructor
  · rintro ⟨a, ha, h⟩
    obtain ⟨⟨f', b⟩, hitems, hf⟩ := bind_eq_ok.mp h
    obtain rfl := Except.ok.inj hf
    exact ⟨a, b, ha, hitems⟩
  · rintro ⟨a, b, ha, hitems⟩
    exact ⟨a, ha, bind_eq_ok.mpr ⟨(f, b), hitems, rfl⟩⟩

theorem loadSource_eq_ok {source : String} : loadSource limits file source = .ok f ↔
    source.length ≤ limits.maxSourceSize ∧
      (∃ a b, fetch .items none (.ofString source) = .ok a ∧
        Parse.items file (source.length + 2) [] [] a = .ok (f, b)) ∧
      (f.declarations = [] ∨ f.declarations.length ≤ limits.maxDeclarations) := by
  have hcount : ¬ (f.declarations ≠ [] ∧ limits.maxDeclarations < f.declarations.length) ↔
      (f.declarations = [] ∨ f.declarations.length ≤ limits.maxDeclarations) := by
    rw [not_and_or, not_not, Int.not_lt]
  rw [← parseSource_eq_ok, ← hcount, ← Int.not_lt, loadSource]
  split_ifs with hsize
  · exact ⟨fun h => (by cases h), fun h => absurd hsize h.1⟩
  · cases parseSource file source with
    | error e => exact ⟨fun h => (by cases h), fun h => (by cases h.2.1)⟩
    | ok f' =>
      simp only
      constructor
      · intro h
        split_ifs at h with hmany
        obtain rfl := Except.ok.inj h
        exact ⟨hsize, rfl, hmany⟩
      · rintro ⟨-, hf, hfew⟩
        obtain rfl := Except.ok.inj hf
        rw [if_neg hfew]

theorem SourceFile.length_insert (f : SourceFile) (x : HeaderPart) (place : HeaderPlace) :
    (f.insert x place).declarations.length = f.declarations.length :=
  List.length_modify ..

theorem SourceFile.length_of_unspanned {f g : SourceFile} (h : f.unspanned = g.unspanned) :
    f.declarations.length = g.declarations.length := by
  have hdecls := congrArg (fun f => f.declarations.length) h
  rwa [unspanned, unspanned, List.length_map, List.length_map] at hdecls

theorem HeaderPart.WrittenAs.pos (hx : x.WrittenAs file text) : 1 ≤ text.length := by
  obtain ⟨a, b, ha, hread, -⟩ := hx
  by_contra hlen
  obtain rfl : text = "" := String.length_eq_zero_iff.mp (by omega)
  have hword : fetch .outerNext none (.ofString ("" ++ "struct")) =
      .ok ⟨some ⟨.structWord, "struct", {}, ⟨1, 7⟩⟩, ⟨⟨1, 7⟩, []⟩, none⟩ := rfl
  obtain rfl := Except.ok.inj (ha.symm.trans hword)
  obtain ⟨k, hk, hopen⟩ := hread.opens
  obtain rfl := Option.some.inj hk
  simp at hopen

/-- A source that is loaded is loaded with one more attribute block or doc comment in front of a declaration, variant or
field, with the same imports and declarations but for the part inserted and for places. -/
theorem loadSource_insert (h : loadSource limits file (pre ++ post) = .ok f)
    (hfront : InFront file pre post place ahead) (hx : x.WrittenAs file text) (hplain : ahead.Plain)
    (hsize : (pre ++ text ++ post).length ≤ limits.maxSourceSize) :
    ∃ f', loadSource limits file (pre ++ text ++ post) = .ok f' ∧ f'.unspanned = (f.insert x place).unspanned := by
  obtain ⟨-, ⟨a, g, ha, hitems⟩, hcount⟩ := loadSource_eq_ok.mp h
  obtain ⟨⟨a₀, ha₀, hplace⟩, front, gap, hpre, hgap, hstop, hdoc⟩ := hfront
  obtain rfl := Except.ok.inj (ha.symm.trans ha₀)
  have hat := Cursor.at_ofString (pre ++ post)
  have hstands := stands_of_fetch hat ha
  have hlast := last_of_fetch ha
  have hbounded : ahead.Bounded .outerNext := hplace.bounded ⟨admits_of_fetch ha, by rw [hlast]; nofun⟩
  have hsource : (pre ++ post).toList = front ++ (gap ++ post.toList) := by
    rw [String.toList_append, hpre, List.append_assoc]
  have K : Cut (pre ++ post).toList ahead front (gap ++ post.toList) (gap ++ (text.toList ++ post.toList)) := by
    refine cut_of_leads hstands hlast hplace.leads hbounded hsource (fun t ht => ?_) fun t ht hterminal hline => ?_
    · rw [ht] at hstop
      exact hstop
    · cases gap with
      | nil => exact absurd rfl (hdoc t ht hterminal)
      | cons => exact hline
  have hland {site : Site} {last last' : Option Token} {c c' : Cursor} (hc : c.rest = gap ++ post.toList)
      (hc' : c'.rest = gap ++ (text.toList ++ post.toList)) (hsite : site.IsOpen)
      (hahead : fetch site last c = .ok ahead) :
      ∃ b', fetch site last' c' = .ok b' ∧ x.Ahead file text.length ahead b' :=
    hx.ahead hsite hahead hgap hc hc' hplain hbounded.admits last'
  obtain ⟨ts, hts⟩ := hplace.leads
  let S : Splice file x text.length := K.splice (hts.stands hstands) hx.pos hland
  have hrest' : (Cursor.ofString (pre ++ text ++ post)).rest = front ++ (gap ++ (text.toList ++ post.toList)) := by
    rw [Cursor.ofString]
    simp only [String.toList_append, hpre, List.append_assoc]
  obtain ⟨a', ha', hmeets⟩ : ∃ a', fetch .items none (.ofString (pre ++ text ++ post)) = .ok a' ∧ S.Meets a a' := by
    cases ts with
    | nil =>
      cases hts
      rw [hlast] at hstop
      obtain rfl : [] = front := Position.past_injective hsource hstop
      obtain ⟨b', hb', hb⟩ : ∃ b', fetch .items none _ = .ok b' ∧ x.Ahead file text.length ahead b' :=
        hland hsource hrest' (by decide) ha
      exact ⟨b', hb', .inl ⟨rfl, hb⟩⟩
    | cons t ts =>
      obtain ⟨b', hb', htwin⟩ := K.fetch hat hsource hrest' ha hts none
      exact ⟨b', hb', .inr ⟨⟨t, ts, hts⟩, hstands, htwin⟩⟩
  obtain ⟨hk, hpart, hi⟩ := hplace
  obtain ⟨f', g', hitems', hinsert⟩ := S.items_inserts hk hpart hi hmeets hitems rfl rfl
  rw [List.length_nil, Nat.zero_add] at hinsert
  refine ⟨f', loadSource_eq_ok.mpr ⟨hsize, ⟨a', g', ha', ?_⟩, ?_⟩, hinsert⟩
  · have hlen : (pre ++ text ++ post).length + 2 = (pre ++ post).length + 2 + text.length := by
      simp only [String.length_append]
      omega
    rw [hlen]
    exact hitems'
  · have hcount' := (SourceFile.length_of_unspanned hinsert).trans (f.length_insert x _)
    rwa [← List.length_eq_zero_iff, hcount', List.length_eq_zero_iff]

end

/-! ### A block in front of a variant -/

deriving instance DecidableEq for Cursor, Lookahead

/-- A token of the first line. -/
def Token.inLine (terminal : Terminal) (text : String) (column : Nat) : Token :=
  ⟨terminal, text, ⟨1, column⟩, ⟨1, column + text.length⟩⟩

/-- The token is ahead of the rest of the first line. -/
def Token.ahead (t : Token) (rest : String) (last : Option Token) : Lookahead := ⟨some t, ⟨t.stop, rest.toList⟩, last⟩

/-- The block `#[a]`. -/
def HeaderPart.blockA : HeaderPart :=
  .block ⟨[⟨.name, "a", some ⟨"<string>", 1, 3, some 1, some 4⟩⟩], some ⟨"<string>", 1, 1, some 1, some 5⟩⟩

theorem writtenAs_blockA : HeaderPart.blockA.WrittenAs "<string>" "#[a] " := by
  have ha : fetch .outerNext none (.ofString ("#[a] " ++ "struct")) =
      .ok ((Token.inLine .hash "#" 1).ahead "[a] struct" none) := by decide +kernel
  refine ⟨_, (Token.inLine .structWord "struct" 6).ahead "" (some (.inLine .rightBracket "]" 4)), ha, ?_, rfl, rfl⟩
  exact .block (by decide +kernel) (by decide +kernel)

section

variable (word : String)

/-- What is ahead at the tokens of `enum E` with the variant. -/
def enumAhead : Lookahead := (Token.inLine .enumWord "enum" 1).ahead (" E \x7b " ++ word ++ " \x7d") none

def identAhead : Lookahead :=
  (Token.inLine .name "E" 6).ahead (" \x7b " ++ word ++ " \x7d") (some (.inLine .enumWord "enum" 1))

def braceAhead : Lookahead :=
  (Token.inLine .leftBrace "\x7b" 8).ahead (" " ++ word ++ " \x7d") (some (.inLine .name "E" 6))

def variantAhead : Lookahead :=
  (Token.inLine .name word 10).ahead " \x7d" (some (.inLine .leftBrace "\x7b" 8))

end

/-- A word is a name in the place of a variant. -/
theorem inFront_variant (word : String) (hword : word ∈ ["A", "struct"]) :
    InFront "<string>" "enum E \x7b " (word ++ " \x7d") ⟨0, .variant 0 .self, {}⟩ (variantAhead word) := by
  have hstart : ∀ word ∈ ["A", "struct"],
      fetch .items none (.ofString ("enum E \x7b " ++ (word ++ " \x7d"))) = .ok (enumAhead word) := by decide +kernel
  have hname : NameTo "<string>" .enumWord .leftBraceOnly (enumAhead word) (braceAhead word) := by
    have houter : ∀ word ∈ ["A", "struct"],
        Parse.outer "<string>" 1 [] [] (enumAhead word) = .ok (([], []), enumAhead word) := by decide +kernel
    have hvis : ∀ word ∈ ["A", "struct"],
        Parse.visibility 1 .keyword (enumAhead word) = .ok (.inherited, enumAhead word) := by decide +kernel
    have hident : ∀ word ∈ ["A", "struct"],
        Parse.shift .name (enumAhead word) = .ok (.inLine .enumWord "enum" 1, identAhead word) := by decide +kernel
    have hbrace : ∀ word ∈ ["A", "struct"],
        Parse.shift .leftBraceOnly (identAhead word) = .ok (.inLine .name "E" 6, braceAhead word) := by decide +kernel
    exact ⟨houter word hword, hvis word hword, rfl, hident word hword, hbrace word hword⟩
  have hvariant : ∀ word ∈ ["A", "struct"],
      Parse.shift .variants (braceAhead word) = .ok (.inLine .leftBrace "\x7b" 8, variantAhead word) := by
    decide +kernel
  have hplace : PlaceTo "<string>" (enumAhead word) ⟨0, .variant 0 .self, {}⟩ (variantAhead word) :=
    .mk (.here nofun nofun) (.enum hname (hvariant word hword) (.here nofun) .self) .here
  refine ⟨⟨_, hstart word hword, hplace⟩, ?_⟩
  exact ⟨"enum E \x7b".toList, [' '], rfl, .space (by decide) .nil, rfl, fun _ _ _ => nofun⟩

theorem plain_A : (variantAhead "A").Plain where
  name t ht _ := by
    obtain rfl := Option.some.inj ht
    decide
  word t ht hword := by
    obtain rfl := Option.some.inj ht
    cases hword

/-- A block is inserted in front of a variant. -/
theorem loadSource_insert_variant : ∃ f f', loadSource {} "<string>" ("enum E \x7b " ++ ("A" ++ " \x7d")) = .ok f ∧
    loadSource {} "<string>" ("enum E \x7b " ++ "#[a] " ++ ("A" ++ " \x7d")) = .ok f' ∧
      f'.unspanned = (f.insert .blockA ⟨0, .variant 0 .self, {}⟩).unspanned := by
  have hloads : (loadSource {} "<string>" ("enum E \x7b " ++ ("A" ++ " \x7d"))).toOption.isSome = true := by
    decide +kernel
  cases hf : loadSource {} "<string>" ("enum E \x7b " ++ ("A" ++ " \x7d")) with
  | error e =>
    rw [hf] at hloads
    cases hloads
  | ok f =>
    obtain ⟨f', hf', hinsert⟩ :=
      loadSource_insert hf (inFront_variant "A" (by decide)) writtenAs_blockA plain_A (by decide)
    exact ⟨f, f', rfl, hf', hinsert⟩

/-- The word `struct` is a variant, but not behind a block: there it starts a declaration. -/
theorem struct_variant_refused : InFront "<string>" "enum E \x7b " ("struct" ++ " \x7d") ⟨0, .variant 0 .self, {}⟩
      (variantAhead "struct") ∧ HeaderPart.blockA.WrittenAs "<string>" "#[a] " ∧
    (∃ f, loadSource {} "<string>" ("enum E \x7b " ++ ("struct" ++ " \x7d")) = .ok f) ∧
      ¬ ∃ f, loadSource {} "<string>" ("enum E \x7b " ++ "#[a] " ++ ("struct" ++ " \x7d")) = .ok f := by
  have hloads : (loadSource {} "<string>" ("enum E \x7b " ++ ("struct" ++ " \x7d"))).toOption.isSome = true := by
    decide +kernel
  have hrefused :
      (loadSource {} "<string>" ("enum E \x7b " ++ "#[a] " ++ ("struct" ++ " \x7d"))).toOption.isSome = false := by
    decide +kernel
  refine ⟨inFront_variant "struct" (by decide), writtenAs_blockA, ?_, ?_⟩
  · cases hf : loadSource {} "<string>" ("enum E \x7b " ++ ("struct" ++ " \x7d")) with
    | error e =>
      rw [hf] at hloads
      cases hloads
    | ok f => exact ⟨f, rfl⟩
  · rintro ⟨f, hf⟩
    rw [hf] at hrefused
    cases hrefused

end TypedErrors

import TypedErrors.Proofs.Attribute.Grammar
import TypedErrors.Proofs.ErrorType.Abort
import TypedErrors.Proofs.Generation.Lines
import TypedErrors.Proofs.Source.RoundTrip
import TypedErrors.Proofs.Text.Quoted

/-! # Descriptions as quoted literals

The literal of a text denotes that text, and without a double quote in it the literal is one string of the language.
Contexts without fields that are described by such strings return the literals again (`literal_described`). -/

namespace TypedErrors

variable {printable : CodePoint → Bool} {t : Text} {d : Char} {p : CodePoint} {piece : List Char}

/-! ### Tokens -/

theorem StringBody.append {cs ds : List Char} (h : StringBody cs) (h' : StringBody ds) : StringBody (cs ++ ds) := by
  induction h with
  | nil => exact h'
  | plain hquote hslash hline _ ih => exact .plain hquote hslash hline ih
  | escape hline _ ih => exact .escape hline ih

namespace Quoted

theorem Written.stringBody (h : Written p piece) (hquote : piece ≠ ['"']) : StringBody piece := by
  cases h with
  | plain hslash _ _ hline => exact .plain (fun h => hquote (by rw [h])) hslash hline .nil
  | @simple c d h =>
    refine .escape ?_ .nil
    simp only [List.mem_cons, Prod.mk.injEq, List.not_mem_nil, or_false] at h
    rcases h with ⟨rfl, -⟩ | ⟨rfl, -⟩ | ⟨rfl, -⟩ | ⟨rfl, -⟩ | ⟨rfl, -⟩ | ⟨rfl, -⟩ <;> decide
  | @numeric _ k w h =>
    have hplain {cs : List Char} (h : ∀ c ∈ cs, c ≠ '"' ∧ c ≠ '\\' ∧ c ≠ '\n') : StringBody cs := by
      induction cs with
      | nil => exact .nil
      | cons c cs ih =>
        obtain ⟨⟨hquote, hslash, hline⟩, h⟩ := List.forall_mem_cons.mp h
        exact .plain hquote hslash hline (ih h)
    refine .escape ?_ (hplain fun c hc => ?_)
    · simp only [List.mem_cons, Prod.mk.injEq, List.not_mem_nil, or_false] at h
      rcases h with ⟨rfl, -⟩ | ⟨rfl, -⟩ | ⟨rfl, -⟩ <;> decide
    · exact ⟨hex_ne (by tauto) c hc, (hex_kept w _ c hc).1, hex_ne (by tauto) c hc⟩

theorem stringBody_body (t : Text) : StringBody (body printable '"' t) := by
  induction t with
  | nil => exact .nil
  | cons p t ih => exact ((written_escape (.inl rfl) p).stringBody (escape_ne p)).append ih

/-- Without a double quote in the text, the literal is a string of the language. -/
theorem quotedText_literalBy (h : .char '"' ∉ t) : QuotedText (literalBy printable t) := by
  have hcontains : t.contains (.char '"') = false := by simpa using h
  rw [literalBy, hcontains]
  exact .mk (stringBody_body t)

end Quoted

/-- The literal of a text where such characters are printable. -/
def Text.literalBy (printable : CodePoint → Bool) (t : Text) : String := String.ofList (Quoted.literalBy printable t)

/-- The literals of generated code. -/
theorem Text.literalBy_isPrintable (t : Text) : t.literalBy CodePoint.isPrintable = t.literal := rfl

/-- The literal is read back as the text, by a token of whatever terminal. -/
theorem decodeQuoted_literalBy (printable : CodePoint → Bool) (t : Text) (terminal : Terminal) (span : Option Span) :
    AttrParse.decodeQuoted ⟨terminal, t.literalBy printable, span⟩ = .ok t := by
  have hwithin {d : Char} (hd : d = '"' ∨ d = '\'') :
      AttrParse.decodeQuoted ⟨terminal, String.ofList (Quoted.within printable d t), span⟩ = .ok t := by
    rw [AttrParse.decodeQuoted, String.toList_ofList, Quoted.single?_within hd]
    simp only [Quoted.decode_body hd]
  rw [Text.literalBy, Quoted.literalBy]
  split_ifs
  · exact hwithin (.inr rfl)
  · exact hwithin (.inl rfl)

theorem terminal?_literalBy {accepts : List Terminal} (h : .char '"' ∉ t) (haccepts : .string ∈ accepts)
    (rest : List Char) : Scan.terminal? accepts ((t.literalBy printable).toList ++ rest) =
      some (.string, (t.literalBy printable).length) := by
  rw [Text.literalBy, String.length_ofList, String.toList_ofList]
  exact Scan.terminal?_string (Quoted.quotedText_literalBy h) haccepts

/-! ### Descriptions -/

open AttrParse

variable {ns : String} {a : RawAttribute}

/-- The block of the namespace has a string for its description, and nothing else. -/
def RawAttribute.Says (ns lit : String) (a : RawAttribute) : Prop :=
  a.tokens.map AttrToken.lexeme = [.name ns, Terminal.leftParen.lexeme, .name "description", Terminal.equal.lexeme,
    ⟨.string, lit⟩, Terminal.rightParen.lexeme]

theorem RawAttribute.Says.entries (h : a.Says ns (t.literalBy printable)) :
    ∃ p span span', Entries.ofAttribute ns a =
      .ok [⟨"description", .assign p (.literal (.string ⟨t, span⟩)) span', false⟩] := by
  have hdecode := decodeQuoted_literalBy printable t .string
  generalize t.literalBy printable = lit at h hdecode
  obtain ⟨tokens, span⟩ := a
  simp only [Says, List.map_eq_cons_iff, List.map_eq_nil_iff] at h
  obtain ⟨⟨_, ns, s₁⟩, _, rfl, ⟨⟩, ⟨_, _, s₂⟩, _, rfl, ⟨⟩, ⟨_, _, s₃⟩, _, rfl, ⟨⟩, ⟨_, _, s₄⟩, _, rfl, ⟨⟩,
    ⟨_, lit, s₅⟩, _, rfl, ⟨⟩, ⟨_, _, s₆⟩, _, rfl, ⟨⟩, rfl⟩ := h
  have hliteral : literal ⟨.string, lit, s₅⟩ = .ok (.string ⟨t, s₅⟩) := by
    show (decodeQuoted ⟨.string, lit, s₅⟩ >>= fun v => .ok (Literal.string ⟨v, s₅⟩)) = _
    rw [hdecode]
    rfl
  have hpath (name : String) (s : Option Span) : PathOf [⟨.name, name, s⟩] ⟨[⟨name, s⟩], s.map (·.join s)⟩ :=
    .mk rfl .nil
  have hentry : NodeOf [⟨.name, "description", s₃⟩, ⟨.equal, "=", s₄⟩, ⟨.string, lit, s₅⟩] _ :=
    .assign (hpath _ s₃) rfl (.literal rfl hliteral)
  have harg : ArgOf [⟨.name, "description", s₃⟩, ⟨.equal, "=", s₄⟩, ⟨.string, lit, s₅⟩] _ :=
    .node (fun h => absurd h.1 (by simp [isLiteral, boolWord?])) hentry
  have hblock := parseAttribute_eq_ok_iff (a := ⟨_, span⟩).mpr
    (.list (o := ⟨.leftParen, "(", s₂⟩) (hpath ns s₁) rfl (.last (c := ⟨.rightParen, ")", s₆⟩) harg rfl))
  exact ⟨_, s₅, _, (if_pos rfl).trans (bind_eq_ok.mpr ⟨_, hblock, rfl⟩)⟩

/-- What is read from the entries of the block. -/
theorem RawAttribute.Says.readContext (h : a.Says ns (t.literalBy printable)) (access : FieldAccess)
    (fields : Fields ErrorField) (anchor : Option Span) :
    Extract.ofAttributes ns [a] (ErrorType.readContext access fields anchor) = .ok (⟨t, []⟩, []) := by
  obtain ⟨p, span, span', hentries⟩ := h.entries
  rw [Extract.ofAttributes, Entries.ofAttributes, List.mapM_cons, hentries]
  rfl

theorem RawAttribute.Says.readStruct (h : a.Says ns (t.literalBy printable))
    (fields : Fields ErrorField) (anchor : Option Span) :
    Extract.ofAttributes ns [a] (do
      let aliases ← ErrorType.readAliases
      let (description, sources) ← ErrorType.readContext .attribute fields anchor
      return (ErrorShape.struct fields description sources, aliases)) = .ok (.struct fields ⟨t, []⟩ [], {}) := by
  obtain ⟨p, span, span', hentries⟩ := h.entries
  rw [Extract.ofAttributes, Entries.ofAttributes, List.mapM_cons, hentries]
  rfl

/-! ### Contexts without fields -/

/-- There are no fields. -/
def Fields.IsEmpty {α : Type} (fs : Fields α) : Prop := fs.entries = []

/-- The block with the description is all that stands in front of the variant, which has no fields. -/
structure Variant.DescribedBy (ns : String) (printable : CodePoint → Bool) (v : Variant) (t : Text) : Prop where
  fields : v.fields.IsEmpty
  attrs : ∃ a, v.attrs = [a] ∧ a.Says ns (t.literalBy printable)

/-- The contexts of the declaration have no fields, and each has the literal of its text for its description. -/
inductive Declaration.DescribedBy (ns : String) (printable : CodePoint → Bool) (d : Declaration) : List Text → Prop
  | struct {fs : Fields Field} {a : RawAttribute} {t : Text} (hshape : d.shape = .struct fs) (hfs : fs.IsEmpty)
      (hattrs : d.attrs = [a]) (ha : a.Says ns (t.literalBy printable)) : DescribedBy ns printable d [t]
  | enum {vs : List Variant} {ts : List Text} (hshape : d.shape = .enum vs)
      (hvs : List.Forall₂ (Variant.DescribedBy ns printable) vs ts) (hnames : (vs.map (·.ident)).Nodup)
      (hattrs : d.attrs = []) : DescribedBy ns printable d ts

/-- The variant is built with the description. -/
structure ErrorVariant.Described (w : ErrorVariant) (ident : String) (t : Text) : Prop where
  ident : w.ident = ident
  fields : w.fields.IsEmpty
  description : w.description = ⟨t, []⟩
  sources : w.sources = []

namespace ErrorType

variable {s : Settings} {owner : String} {fs : Fields Field}

theorem buildFields_of_isEmpty (owner : String) (h : fs.IsEmpty) :
    ∃ gs, buildFields s owner fs = .ok gs ∧ gs.IsEmpty := by
  cases fs with
  | unit => exact ⟨.unit, rfl, rfl⟩
  | named items =>
    obtain rfl := List.map_eq_nil_iff.mp h
    exact ⟨.named [], rfl, rfl⟩
  | unnamed items =>
    obtain rfl := List.map_eq_nil_iff.mp h
    exact ⟨.unnamed [], rfl, rfl⟩

theorem buildVariant_of_describedBy (owner : String) {v : Variant}
    (h : v.DescribedBy s.attributeNamespace printable t) :
    ∃ w, buildVariant s owner v = .ok w ∧ w.Described v.ident t := by
  obtain ⟨gs, hgs, hempty⟩ := buildFields_of_isEmpty (s := s) s!"{owner}.{v.ident}" h.fields
  obtain ⟨a, hattrs, ha⟩ := h.attrs
  have hread := ha.readContext .capture gs v.span
  rw [← hattrs] at hread
  refine ⟨{ ident := v.ident, fields := gs, description := ⟨t, []⟩, docs := v.docs, span := v.span }, ?_,
    rfl, hempty, rfl, rfl⟩
  exact bind_eq_ok.mpr ⟨gs, hgs, bind_eq_ok.mpr ⟨_, hread, rfl⟩⟩

theorem buildVariants_of_describedBy (owner : String) {vs : List Variant} {ts : List Text} {seen : List String}
    (h : List.Forall₂ (Variant.DescribedBy s.attributeNamespace printable) vs ts)
    (hnames : (vs.map (·.ident)).Nodup) (hseen : ∀ v ∈ vs, v.ident ∉ seen) :
    ∃ ws, buildVariants s owner seen vs = .ok ws ∧ ws.map (·.ident) = vs.map (·.ident) ∧
      (∀ w ∈ ws, w.sources = []) ∧ List.Forall₂ (fun w t => w.description = ⟨t, []⟩) ws ts := by
  induction h generalizing seen with
  | nil => exact ⟨[], rfl, rfl, nofun, .nil⟩
  | @cons v t vs ts hv _ ih =>
    obtain ⟨hnew, hseen⟩ := List.forall_mem_cons.mp hseen
    rw [List.map_cons, List.nodup_cons] at hnames
    obtain ⟨w, hw, hdescribed⟩ := buildVariant_of_describedBy owner hv
    have hrest : ∀ u ∈ vs, u.ident ∉ v.ident :: seen := by
      intro u hu hmem
      obtain heq | hmem := List.mem_cons.mp hmem
      · exact hnames.1 (heq ▸ List.mem_map_of_mem hu)
      · exact hseen u hu hmem
    obtain ⟨ws, hws, hidents, hsources, hall⟩ := ih hnames.2 hrest
    refine ⟨w :: ws, buildVariants_cons_eq_ok.mpr ⟨w, ws, hnew, hw, hws, rfl⟩, ?_, ?_,
      .cons hdescribed.description hall⟩
    · rw [List.map_cons, List.map_cons, hdescribed.ident, hidents]
    · exact List.forall_mem_cons.mpr ⟨hdescribed.sources, hsources⟩

/-- Without sources there is nothing to bind. -/
theorem bindVariants_of_sources {ws : List ErrorVariant} (h : ∀ w ∈ ws, w.sources = []) :
    bindVariants ws = ([], none) := by
  induction ws with
  | nil => rfl
  | cons w ws ih =>
    obtain ⟨hw, hws⟩ := List.forall_mem_cons.mp h
    rw [bindVariants, hw, ih hws]
    rfl

theorem build_of_shape {d : Declaration} {shape : ErrorShape} (h : buildShape s d = .ok (shape, {}))
    (hbind : bindConversions shape = ([], none)) :
    ∃ et, build s d = .ok et ∧ et.shape = shape := by
  refine ⟨{ ident := d.ident, visibility := d.visibility, shape, aliases := {},
            namespaceName := s.modulePrefix ++ snakeCase d.ident,
            namespaceVisibility := (d.visibility.within 1).getD d.visibility, docs := d.docs, span := d.span },
    bind_eq_ok.mpr ⟨(shape, {}), h, ?_⟩, rfl⟩
  simp only [hbind]
  rfl

end ErrorType

/-! ### The text of a context -/

open Code Generated

/-- The contexts of the type have the texts for their descriptions, and the lines that display a context return the
literal of its text. -/
inductive ErrorType.Returns (d : Declaration) (et : ErrorType) : List Text → Prop
  | struct {fs : Fields Field} {gs : Fields ErrorField} {t : Text} (hd : d.shape = .struct fs)
      (hshape : et.shape = .struct gs ⟨t, []⟩ [])
      (hlines : ["    def __str__(self) -> str:", "        return " ++ t.literal] <:+:
        Stmt.renderBlock 0 (contexts et)) : Returns d et [t]
  | enum {vs : List Variant} {ws : List ErrorVariant} {ts : List Text} (hd : d.shape = .enum vs)
      (hshape : et.shape = .enum ws) (hnames : ws.map (·.ident) = vs.map (·.ident))
      (hws : List.Forall₂ (fun w t => w.description = ⟨t, []⟩ ∧
        ["            case " ++ (variantPattern et w).render ++ ":", "                return " ++ t.literal] <:+:
          Stmt.renderBlock 0 (contexts et)) ws ts) : Returns d et ts

theorem renderBlock_ret (level : Nat) (t : Text) :
    Stmt.renderBlock level [.ret (some (descriptionExpr ⟨t, []⟩))] = [pad level ++ "return " ++ t.literal] := by
  simp only [descriptionExpr, List.isEmpty_nil, if_true, Stmt.renderBlock, Stmt.renderMore, Stmt.render, Expr.render,
    Constant.render, List.append_nil]

/-- The method that gives the text of a context. -/
def textMethod (text : List Stmt) : Stmt := .function "__str__" [.ofText "self"] text (some (.raw "str")) [] none

theorem infix_textMethod (et : ErrorType) (draft : ClassDraft) (text : List Stmt) :
    (textMethod text).render 1 <:+: (draft.add (contextMethods et text)).build.render 0 :=
  Stmt.infix_render_cls (List.mem_append_right _ (List.mem_cons_of_mem _ List.mem_cons_self))

theorem textMethod_render (text : List Stmt) :
    (textMethod text).render 1 = "    def __str__(self) -> str:" :: Stmt.renderBlock 2 text := by
  simp only [textMethod, Stmt.render]
  exact congrArg (List.cons · _) (by decide)

theorem infix_structContext {et : ErrorType} {gs : Fields ErrorField} (hshape : et.shape = .struct gs ⟨t, []⟩ []) :
    ["    def __str__(self) -> str:", "        return " ++ t.literal] <:+: Stmt.renderBlock 0 (contexts et) := by
  have hlines : (textMethod [.ret (some (descriptionExpr ⟨t, []⟩))]).render 1 =
      ["    def __str__(self) -> str:", "        return " ++ t.literal] := by
    rw [textMethod_render, renderBlock_ret, show pad 2 ++ "return " = "        return " by decide]
  rw [contexts, hshape, ← hlines]
  exact (infix_textMethod et _ _).trans (Stmt.infix_renderBlock List.mem_cons_self)

theorem infix_enumBase {et : ErrorType} {ws : List ErrorVariant} {w : ErrorVariant} (hshape : et.shape = .enum ws)
    (hw : w ∈ ws) (hdescription : w.description = ⟨t, []⟩) :
    ["            case " ++ (variantPattern et w).render ++ ":",
        "                return " ++ t.literal] <:+: Stmt.renderBlock 0 (contexts et) := by
  have hmem := List.mem_map_of_mem
    (f := fun v => Case.mk (variantPattern et v) [.ret (some (descriptionExpr v.description))]) hw
  have hcase := Case.infix_renderAll 3 hmem
  rw [hdescription, renderBlock_ret, show pad 3 ++ "case " = "            case " by decide,
    show pad (3 + 1) ++ "return " = "                return " by decide] at hcase
  generalize hcases : ws.map _ = cases at hmem hcase
  have hselect : Stmt.select (.name "self") cases ∈ selectOrRaise "self" cases := by
    rw [selectOrRaise, if_neg (by simpa using List.ne_nil_of_mem hmem)]
    exact List.mem_cons_self
  have hrender : Case.renderAll 3 cases <:+: (Stmt.select (.name "self") cases).render 2 := by
    simp only [Stmt.render]
    exact (List.suffix_cons _ _).isInfix
  have hbase : (textMethod (selectOrRaise "self" cases)).render 1 <:+: (enumBase et ws).render 0 := by
    rw [← hcases]
    exact infix_textMethod et _ _
  rw [contexts, hshape]
  exact ((hcase.trans hrender).trans (Stmt.infix_render_function hselect)).trans
    (hbase.trans (Stmt.infix_renderBlock List.mem_cons_self))

/-! ### Declarations -/

variable {s : Settings} {d e : Declaration} {ts : List Text}

theorem returns_of_describedBy (h : d.DescribedBy s.attributeNamespace printable ts) :
    ∃ et, ErrorType.build s d = .ok et ∧ ErrorType.Returns d et ts := by
  cases h with
  | @struct fs a t hshape hfs hattrs ha =>
    obtain ⟨gs, hgs, hempty⟩ := ErrorType.buildFields_of_isEmpty (s := s) d.ident hfs
    have hread := ha.readStruct gs d.span
    rw [← hattrs] at hread
    have hbuild : ErrorType.buildShape s d = .ok (.struct gs ⟨t, []⟩ [], {}) := by
      rw [ErrorType.buildShape, hshape]
      exact bind_eq_ok.mpr ⟨gs, hgs, hread⟩
    obtain ⟨et, het, htshape⟩ := ErrorType.build_of_shape hbuild rfl
    exact ⟨et, het, .struct hshape htshape (infix_structContext htshape)⟩
  | @enum vs _ hshape hvs hnames hattrs =>
    obtain ⟨ws, hws, hidents, hsources, hall⟩ := ErrorType.buildVariants_of_describedBy d.ident hvs hnames
      fun _ _ => List.not_mem_nil
    have hbuild : ErrorType.buildShape s d = .ok (.enum ws, {}) := by
      rw [ErrorType.buildShape, hshape, hattrs]
      exact bind_eq_ok.mpr ⟨ws, hws, rfl⟩
    have hbind : ErrorType.bindConversions (.enum ws) = ([], none) := by
      rw [ErrorType.bindConversions, ErrorType.bindVariants_of_sources hsources]
      rfl
    obtain ⟨et, het, htshape⟩ := ErrorType.build_of_shape hbuild hbind
    have hws := (List.forall₂_and_left ws ts).mpr ⟨fun _ hw => hw, hall⟩
    exact ⟨et, het, .enum hshape htshape hidents (hws.imp fun w t h => ⟨h.2, infix_enumBase htshape h.1 h.2⟩)⟩

/-! ### Places do not matter -/

theorem RawAttribute.says_unspanned {lit : String} : a.unspanned.Says ns lit ↔ a.Says ns lit := by
  rw [Says, Says, unspanned, List.map_map]
  rfl

theorem Fields.isEmpty_map {α β : Type} {f : α → β} {fs : Fields α} : (fs.map f).IsEmpty ↔ fs.IsEmpty := by
  cases fs <;> simp [map, IsEmpty, entries]

theorem Variant.describedBy_unspanned {v : Variant} : v.unspanned.DescribedBy ns printable t ↔
    v.DescribedBy ns printable t := by
  constructor
  · rintro ⟨hfields, b, hattrs, hb⟩
    obtain ⟨a, ha, rfl⟩ := List.map_eq_singleton_iff.mp hattrs
    exact ⟨Fields.isEmpty_map.mp hfields, a, ha, RawAttribute.says_unspanned.mp hb⟩
  · rintro ⟨hfields, a, hattrs, ha⟩
    exact ⟨Fields.isEmpty_map.mpr hfields, a.unspanned, congrArg (List.map _) hattrs,
      RawAttribute.says_unspanned.mpr ha⟩

theorem Declaration.describedBy_unspanned : d.unspanned.DescribedBy ns printable ts ↔
    d.DescribedBy ns printable ts := by
  have hnames (vs : List Variant) : (vs.map Variant.unspanned).map (·.ident) = vs.map (·.ident) := by
    rw [List.map_map]
    rfl
  obtain ⟨ident, visibility, shape, attrs, docs, span⟩ := d
  constructor
  · intro h
    cases h with
    | struct hshape hfs hattrs ha =>
      obtain ⟨b, hb, rfl⟩ := List.map_eq_singleton_iff.mp hattrs
      cases shape with
      | struct gs =>
        obtain rfl := Shape.struct.inj hshape
        exact .struct rfl (Fields.isEmpty_map.mp hfs) hb (RawAttribute.says_unspanned.mp ha)
      | enum vs => cases hshape
      | union gs => cases hshape
    | enum hshape hvs hnodup hattrs =>
      cases shape with
      | struct gs => cases hshape
      | enum vs =>
        obtain rfl := Shape.enum.inj hshape
        rw [hnames] at hnodup
        exact .enum rfl ((List.forall₂_map_left_iff.mp hvs).imp fun _ _ => Variant.describedBy_unspanned.mp) hnodup
          (List.map_eq_nil_iff.mp hattrs)
      | union gs => cases hshape
  · intro h
    cases h with
    | struct hshape hfs hattrs ha =>
      obtain rfl : shape = _ := hshape
      obtain rfl : attrs = _ := hattrs
      exact .struct rfl (Fields.isEmpty_map.mpr hfs) rfl (RawAttribute.says_unspanned.mpr ha)
    | enum hshape hvs hnodup hattrs =>
      obtain rfl : shape = _ := hshape
      obtain rfl : attrs = _ := hattrs
      rw [← hnames] at hnodup
      exact .enum rfl (List.forall₂_map_left_iff.mpr (hvs.imp fun _ _ => Variant.describedBy_unspanned.mpr)) hnodup rfl

/-- A literal is read back as the text that it was written for. Without a double quote in the text it is one string of
the language, and as the description of contexts without fields it comes back in what displays them. -/
theorem literal_described (printable : CodePoint → Bool) :
    (∀ t terminal span, decodeQuoted ⟨terminal, Text.literalBy printable t, span⟩ = .ok t) ∧
    (∀ t accepts rest, .char '"' ∉ t → .string ∈ accepts →
      Scan.terminal? accepts ((Text.literalBy printable t).toList ++ rest) =
        some (.string, (Text.literalBy printable t).length)) ∧
    ∀ (s : Settings) (file source : String) (is : List Import) (ds : List Declaration) (ls : List Lexeme),
      PrintsItems is ds ls → Spelled ls source.toList → (∀ l ∈ ls, ¬ l.IsRaw) →
      source.length ≤ s.limits.maxSourceSize → ds.length ≤ s.limits.maxDeclarations →
      ∃ f, loadSource s.limits file source = .ok f ∧
        List.Forall₂ (fun d e => e.unspanned = d.unspanned ∧ ∀ ts,
          d.DescribedBy s.attributeNamespace printable ts →
            ∃ et, ErrorType.build s e = .ok et ∧ ErrorType.Returns e et ts) ds f.declarations := by
  refine ⟨decodeQuoted_literalBy printable, fun t accepts rest h haccepts => terminal?_literalBy h haccepts rest, ?_⟩
  intro s file source is ds ls hprints hspelled hraw hsize hcount
  obtain ⟨f, hload, hf⟩ : ∃ f, loadSource s.limits file source = .ok f ∧ _ :=
    loadSource_of_prints hprints hspelled hraw hsize hcount
  refine ⟨f, hload, ?_⟩
  have hdecls : f.declarations.map Declaration.unspanned = ds.map Declaration.unspanned :=
    congrArg SourceFile.declarations hf
  have hall : List.Forall₂ (fun d e => e.unspanned = d.unspanned) ds f.declarations := by
    rw [← List.forall₂_eq_eq_eq, List.forall₂_map_left_iff, List.forall₂_map_right_iff] at hdecls
    exact hdecls.flip
  refine hall.imp fun d e heq => ⟨heq, fun ts h => ?_⟩
  rw [← Declaration.describedBy_unspanned, ← heq, Declaration.describedBy_unspanned] at h
  exact returns_of_describedBy h

/-- A struct `A` that is described by a string. -/
def described (lit : String) : Declaration where
  ident := "A"
  visibility := .inherited
  shape := .struct .unit
  attrs := [⟨[⟨.name, "faultline", none⟩, ⟨.leftParen, "(", none⟩, ⟨.name, "description", none⟩, ⟨.equal, "=", none⟩,
    ⟨.string, lit, none⟩, ⟨.rightParen, ")", none⟩], none⟩]

def describedLexemes (lit : String) : List Lexeme :=
  [Terminal.hash.lexeme, Terminal.leftBracket.lexeme, .name "faultline", Terminal.leftParen.lexeme, .name "description",
    Terminal.equal.lexeme, ⟨.string, lit⟩, Terminal.rightParen.lexeme, Terminal.rightBracket.lexeme,
    Terminal.structWord.lexeme, .name "A", Terminal.semicolon.lexeme]

def describedSource (lit : String) : String := "#[faultline(description=" ++ lit ++ ")]struct A;"

theorem prints_described (lit : String) : PrintsItems [] [described lit] (describedLexemes lit) := by
  have hident : Identifier "A" := ⟨by decide, by decide⟩
  have hstring : Balanced [⟨.string, lit⟩] := .token (by simp [Site.treeStart]) rfl .nil
  have hentry : Balanced [.name "description", Terminal.equal.lexeme, ⟨.string, lit⟩] :=
    .token (l := .name "description") (by decide) rfl (.token (l := Terminal.equal.lexeme) (by decide) rfl hstring)
  have hgroup := Balanced.group (t := .leftParen) rfl hentry .nil
  have htokens : Balanced ((described lit).attrs.flatMap fun a => a.tokens.map AttrToken.lexeme) :=
    .token (l := .name "faultline") (by decide) rfl hgroup
  have houter : PrintsOuter (described lit).attrs [] _ := .block (.mk htokens) .nil
  have hshape : (described lit).shape.Prints "A" _ := .struct .unit
  exact .declaration (.mk houter .inherited hident hshape) .nil

theorem spelled_described {lit : String} (h : StringText lit.toList) :
    Spelled (describedLexemes lit) (describedSource lit).toList := by
  have hname : ∀ {c : Char} {cs : List Char}, Scan.isNamePart c = false → NotName (c :: cs) := by
    rintro c cs hc d hd
    obtain rfl := Option.some.inj hd
    exact hc
  have hrest := Spelled.cons (l := Terminal.semicolon.lexeme) .nil rfl nofun (.nil .nil)
  have hrest := Spelled.cons (l := .name "A") (.space (c := ' ') (by decide) .nil)
    (show NameText "A".toList by decide) (hname (by decide)) hrest
  have hrest := Spelled.cons (l := Terminal.structWord.lexeme) .nil rfl (fun _ => hname (by decide)) hrest
  have hrest := Spelled.cons (l := Terminal.rightBracket.lexeme) .nil rfl nofun hrest
  have hrest := Spelled.cons (l := Terminal.rightParen.lexeme) .nil rfl nofun hrest
  have hrest := Spelled.cons (l := ⟨.string, lit⟩) .nil h nofun hrest
  have hrest := Spelled.cons (l := Terminal.equal.lexeme) .nil rfl nofun hrest
  have hrest := Spelled.cons (l := .name "description") .nil (show NameText "description".toList by decide +kernel)
    (hname (by decide)) hrest
  have hrest := Spelled.cons (l := Terminal.leftParen.lexeme) .nil rfl nofun hrest
  have hrest := Spelled.cons (l := .name "faultline") .nil (show NameText "faultline".toList by decide +kernel)
    (hname (by decide)) hrest
  have hrest := Spelled.cons (l := Terminal.leftBracket.lexeme) .nil rfl nofun hrest
  have hrest := Spelled.cons (l := Terminal.hash.lexeme) .nil rfl nofun hrest
  have hhead : "#[faultline(description=".toList =
      '#' :: '[' :: ("faultline".toList ++ '(' :: ("description".toList ++ ['='])) := by decide +kernel
  have htail : ")]struct A;".toList = ')' :: ']' :: ("struct".toList ++ [' ', 'A', ';']) := by decide +kernel
  show Spelled _ ("#[faultline(description=" ++ lit ++ ")]struct A;").toList
  rw [String.toList_append, String.toList_append, hhead, htail]
  simp only [List.cons_append, List.append_assoc, List.nil_append]
  exact hrest

/-- A quote, a line feed, a letter that is not printable and a surrogate. -/
theorem quote_surrogate_described :
    ∃ f e et, loadSource {} "<string>" (describedSource "\"'\\n\\xe9\\ud800\"") = .ok f ∧ f.declarations = [e] ∧
      ErrorType.build {} e = .ok et ∧
      ErrorType.Returns e et [[.char '\'', .char '\n', .char 'é', .surrogate 0]] := by
  have hlit : Text.literalBy (fun _ => false) [.char '\'', .char '\n', .char 'é', .surrogate 0] =
      "\"'\\n\\xe9\\ud800\"" := by decide +kernel
  have hquoted : StringText "\"'\\n\\xe9\\ud800\"".toList := by
    rw [← hlit, Text.literalBy, String.toList_ofList]
    exact .quoted (Quoted.quotedText_literalBy (by decide))
  obtain ⟨f, hload, hall⟩ := (literal_described fun _ => false).2.2 {} "<string>" _ _ _ _ (prints_described _)
    (spelled_described hquoted) (by decide +kernel) (by decide +kernel) (by decide +kernel)
  obtain ⟨e, _, hreturns, hnil, hdecls⟩ := List.forall₂_cons_left_iff.mp hall
  obtain rfl := List.forall₂_nil_left_iff.mp hnil
  have hsays : (described "\"'\\n\\xe9\\ud800\"").DescribedBy "faultline" (fun _ => false)
      [[.char '\'', .char '\n', .char 'é', .surrogate 0]] :=
    .struct rfl rfl rfl (by rw [hlit]; rfl)
  obtain ⟨et, hbuild, hlines⟩ := hreturns.2 _ hsays
  exact ⟨f, e, et, hload, hdecls, hbuild, hlines⟩

end TypedErrors

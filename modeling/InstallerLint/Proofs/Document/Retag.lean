import InstallerLint.Proofs.Document.Change
import InstallerLint.Proofs.Document.Find

/-!
# Start tags with other attributes

A start tag can be written with another value of an attribute, without it, or with one more
(`exists_assign`, `exists_without`, `exists_added`).  Such a tag is read as the old one but for this
attribute (`Retagged`).

**Name spaces.**  The attribute has no prefix, and what has no prefix matters to no name with one.
So names of attributes in the tag and further down stand for what they stood for (`Scope.Agrees`),
and further down no row changes (`Content.rows_agrees`).
-/

namespace InstallerLint

/-- Attributes with one more set: the first one of the name gets the value, or a new one comes
last. -/
def setAttribute (name value : String) : List Attribute → List Attribute
  | [] => [⟨name, value⟩]
  | a :: attrs =>
    if a.name = name then ⟨name, value⟩ :: attrs else a :: setAttribute name value attrs

section Attributes

variable {name value : String} {attrs attrs' : List Attribute}

theorem setAttribute_append (h : ∀ a ∈ attrs, a.name ≠ name) :
    setAttribute name value (attrs ++ attrs') = attrs ++ setAttribute name value attrs' := by
  induction attrs with
  | nil => rfl
  | cons a attrs ih =>
      rw [List.cons_append, setAttribute, if_neg (h a List.mem_cons_self),
        ih fun b hb => h b (List.mem_cons_of_mem a hb), List.cons_append]

theorem isSome_findAttr :
    (Document.findAttr name attrs).isSome = true ↔ ∃ a ∈ attrs, a.name = name := by
  simp [Document.findAttr]

/-- An attribute that was set is found with its value. -/
theorem findAttr_setAttribute :
    Document.findAttr name (setAttribute name value attrs) = some value := by
  induction attrs with
  | nil => simp [setAttribute, Document.findAttr]
  | cons a attrs ih =>
      unfold Document.findAttr at ih ⊢
      rw [setAttribute]
      split_ifs with ha
      · simp
      · rwa [List.find?_cons_of_neg (by simpa using ha)]

/-- An attribute that stands there once is gone when it is removed. -/
theorem findAttr_eraseP (h : (attrs.filter (·.name = name)).length ≤ 1) :
    Document.findAttr name (attrs.eraseP (·.name = name)) = none := by
  have hnone : (attrs.eraseP (·.name = name)).find? (·.name = name) = none := by
    induction attrs with
    | nil => rfl
    | cons a attrs ih =>
        by_cases ha : a.name = name
        · rw [List.filter_cons_of_pos (by simpa using ha), List.length_cons] at h
          have hnil : attrs.filter (·.name = name) = [] := List.length_eq_zero_iff.mp (by omega)
          rw [List.eraseP_cons_of_pos (by simpa using ha), List.find?_eq_none]
          exact List.filter_eq_nil_iff.mp hnil
        · rw [List.filter_cons_of_neg (by simpa using ha)] at h
          rw [List.eraseP_cons_of_neg (by simpa using ha), List.find?_cons_of_neg (by simpa using ha)]
          exact ih h
  rw [Document.findAttr, hnone]
  rfl

end Attributes

namespace Xml

section Names

variable {scope scope' scope'' : Scope} {attrs : List TagAttr} {a : TagAttr}

/-- Name spaces agree when the same stands behind every name in front of a colon. -/
def Scope.Agrees (scope scope' : Scope) : Prop :=
  ∀ s, s ≠ "" → scope.lookup s = scope'.lookup s

theorem Scope.Agrees.trans (h : scope.Agrees scope') (h' : scope'.Agrees scope'') :
    scope.Agrees scope'' := fun s hs => (h s hs).trans (h' s hs)

theorem Scope.Agrees.symm (h : scope.Agrees scope') : scope'.Agrees scope :=
  fun s hs => (h s hs).symm

theorem Scope.Agrees.cons (h : scope.Agrees scope') (x : String × String) :
    Scope.Agrees (x :: scope) (x :: scope') := by
  intro s hs
  rw [List.lookup_cons, List.lookup_cons, h s hs]

theorem Scope.agrees_cons (scope : Scope) (v : String) : Scope.Agrees (("", v) :: scope) scope := by
  intro s hs
  rw [List.lookup_cons, beq_false_of_ne hs]

/-- Scopes agree after the same declarations. -/
theorem Scope.Agrees.declare (h : scope.Agrees scope') :
    (scope.declare attrs).Agrees (scope'.declare attrs) := by
  induction attrs generalizing scope scope' with
  | nil => exact h
  | cons a attrs ih =>
      rw [Scope.declare, Scope.declare, List.foldl_cons, List.foldl_cons]
      refine ih ?_
      split_ifs
      · exact h.cons _
      · exact h.cons _
      · exact h

theorem Scope.declare_append (scope : Scope) (attrs attrs' : List TagAttr) :
    scope.declare (attrs ++ attrs') = (scope.declare attrs).declare attrs' := List.foldl_append

/-- An attribute without prefix matters to no name with a prefix. -/
theorem Scope.agrees_declare (scope : Scope) (l r : List TagAttr) (ha : a.name.space = "") :
    (scope.declare (l ++ a :: r)).Agrees (scope.declare (l ++ r)) := by
  rw [List.append_cons, declare_append, declare_append, declare_append]
  refine Agrees.declare ?_
  rw [declare, List.foldl_cons, List.foldl_nil, if_neg (by rw [ha]; decide)]
  split_ifs
  · exact agrees_cons _ _
  · exact fun _ _ => rfl

theorem Scope.Agrees.attrName (h : scope.Agrees scope') (name : QName) :
    scope.attrName name = scope'.attrName name := by
  have hresolve : scope.resolve name = scope'.resolve name := by
    unfold Scope.resolve
    split_ifs with hplain
    · rfl
    · rfl
    · rw [h name.space (by simp_all)]
  unfold Scope.attrName
  rw [hresolve]

/-- An attribute as it is kept. -/
def Scope.keep (scope : Scope) (a : TagAttr) : Attribute := ⟨scope.attrName a.name, a.value⟩

theorem Scope.kept_eq (scope : Scope) (attrs : List TagAttr) :
    scope.kept attrs = attrs.map (scope.declare attrs).keep := rfl

theorem Scope.Agrees.keep (h : scope.Agrees scope') : scope.keep = scope'.keep := by
  funext a
  rw [Scope.keep, Scope.keep, h.attrName]

theorem Scope.Agrees.kept (h : scope.Agrees scope') : scope.kept attrs = scope'.kept attrs := by
  rw [kept_eq, kept_eq, h.declare.keep]

/-- The rows of a content depend on its scope up to agreement only. -/
theorem Content.rows_agrees (c : Content) :
    ∀ {scope scope' : Scope} (parent : Option Nat) (n : Nat), scope.Agrees scope' →
      c.rows scope parent n = c.rows scope' parent n := by
  induction c with
  | done => intro scope scope' parent n h; rfl
  | leaf p hp next ih => intro scope scope' parent n h; exact ih parent n h
  | closed t ht next ih =>
      intro scope scope' parent n h
      rw [rows, rows, ih parent _ h, h.kept]
  | element t ht inner e he next ihinner ihnext =>
      intro scope scope' parent n h
      rw [rows, rows, ihinner _ _ h.declare, ihnext parent _ h, h.kept]

/-- A name without a colon is a local part. -/
theorem part_of_attrName {name : String} (hname : IsPlainName name) {q : QName}
    (h : scope.attrName q = name) : q.part = name := by
  unfold Scope.attrName at h
  dsimp only at h
  split_ifs at h with hspace hplain
  · refine absurd ?_ hname.no_colon
    rw [← h]
    simp
  · simp only [Bool.and_eq_true, decide_eq_true_eq] at hplain
    exact hplain.2.trans h
  · exact h

end Names

/-- An attribute is found in the text of the tag: blanks part the attributes, and none of them has
the name with a prefix or something like the attribute inside of its value. -/
structure WrittenTag.Shows (t : WrittenTag) (name : String) : Prop where
  parted : ∀ a ∈ t.attrs, a.blank ≠ []
  unprefixed : ∀ a ∈ t.attrs, a.attr.name.part = name → a.name = Bytes.ofString name
  visible : ∀ a ∈ t.attrs, ¬Tag.Hides (Bytes.ofString name) a.raw

/-- The second tag is the first one with other attributes, and differs by what has no prefix. -/
structure Retagged (t t' : WrittenTag) (f : List Attribute → List Attribute) : Prop where
  qname : t'.qname = t.qname
  selfClosing : t'.selfClosing = t.selfClosing
  kept : ∀ scope : Scope, scope.kept t'.tagAttrs = f (scope.kept t.tagAttrs)
  agrees : ∀ scope : Scope, (scope.declare t'.tagAttrs).Agrees (scope.declare t.tagAttrs)

/-- Tags that are written the same are read the same. -/
theorem token_of_bytes {t t' : WrittenTag} (h : t.bytes = t'.bytes) : t.token = t'.token := by
  have hcore : t.core = t'.core := (List.cons.inj h).2
  have hread := t.readStartTag_core []
    (Nat.lt_add_right (t'.core ++ []).length (t.length_attrs_lt []))
  rw [hcore, t'.readStartTag_core [] (Nat.lt_add_right _ (t'.length_attrs_lt []))] at hread
  exact (Prod.mk.inj (Except.ok.inj hread)).1.symm

theorem Retagged.of_bytes {t₀ t t' : WrittenTag} {f : List Attribute → List Attribute}
    (h : Retagged t t' f) (hbytes : t₀.bytes = t.bytes) : Retagged t₀ t' f := by
  have htoken := token_of_bytes hbytes
  simp only [WrittenTag.token, Token.startTag.injEq] at htoken
  obtain ⟨hqname, hattrs, hself⟩ := htoken
  exact ⟨h.qname.trans hqname.symm, h.selfClosing.trans hself.symm, hattrs ▸ h.kept,
    hattrs ▸ h.agrees⟩

theorem Retagged.of_keep {t t' : WrittenTag} {f : List Attribute → List Attribute}
    (hqname : t'.qname = t.qname) (hself : t'.selfClosing = t.selfClosing)
    (hagrees : ∀ scope : Scope, (scope.declare t'.tagAttrs).Agrees (scope.declare t.tagAttrs))
    (hkeep : ∀ k : TagAttr → Attribute, (∃ scope : Scope, k = scope.keep) →
      t'.tagAttrs.map k = f (t.tagAttrs.map k)) : Retagged t t' f := by
  refine ⟨hqname, hself, fun scope => ?_, hagrees⟩
  rw [Scope.kept_eq, Scope.kept_eq, (hagrees scope).keep, hkeep _ ⟨_, rfl⟩]

section Shown

variable {t : WrittenTag} {name : String} {l r : List WrittenAttr} {a : WrittenAttr}

theorem WrittenTag.Shows.attrName_iff (h : t.Shows name) (hname : IsPlainName name) {scope : Scope}
    (ha : a ∈ t.attrs) : scope.attrName a.attr.name = name ↔ a.name = Bytes.ofString name := by
  constructor
  · exact fun hattr => h.unprefixed a ha (part_of_attrName hname hattr)
  · intro hwritten
    have hparts := a.spells.parts
    rw [hwritten, hname.spells.parts] at hparts
    rw [← Option.some.inj hparts, attrName_plain]

theorem WrittenTag.Shows.pass (h : t.Shows name) (hl : ∀ b ∈ l, b ∈ t.attrs)
    (hne : ∀ b ∈ l, b.name ≠ Bytes.ofString name) :
    ∀ b ∈ l, b.name ≠ Bytes.ofString name ∧ ¬Tag.Hides (Bytes.ofString name) b.raw :=
  fun b hb => ⟨hne b hb, h.visible b (hl b hb)⟩

theorem WrittenTag.Shows.findAttribute_eq_some (h : t.Shows name) (hname : IsPlainName name)
    (hattrs : t.attrs = l ++ a :: r) (hl : ∀ b ∈ l, b.name ≠ Bytes.ofString name)
    (ha : a.name = Bytes.ofString name) (offset : Nat) :
    Tag.findAttribute (Bytes.ofString name) offset t.bytes =
      some (offset + (t.upTo l).length, offset + (t.upTo l).length + a.lead.length,
        offset + (t.upTo l).length + a.bytes.length) := by
  refine WrittenTag.findAttribute_eq_some hname.spells hattrs (h.pass ?_ hl) ha ?_ offset
  · exact fun b hb => hattrs ▸ List.mem_append_left _ hb
  · exact h.parted a (hattrs ▸ by simp)

/-- The attributes up to the first one of a name, and behind it. -/
theorem exists_first (attrs : List WrittenAttr) (n : Bytes) :
    (∀ b ∈ attrs, b.name ≠ n) ∨
      ∃ l a r, attrs = l ++ a :: r ∧ a.name = n ∧ ∀ b ∈ l, b.name ≠ n := by
  cases hfind : attrs.find? (·.name = n) with
  | none => exact .inl fun b hb => by simpa using List.find?_eq_none.mp hfind b hb
  | some a =>
      obtain ⟨ha, l, r, hattrs, hl⟩ := List.find?_eq_some_iff_append.mp hfind
      exact .inr ⟨l, a, r, hattrs, by simpa using ha, fun b hb => by simpa using hl b hb⟩

/-- An attribute with another value. -/
def WrittenAttr.assign (a : WrittenAttr) {value : String} {raw : Bytes}
    (h : Writes (.value 0x22) raw value) : WrittenAttr :=
  { a with quote := 0x22, raw := raw, attr := ⟨a.attr.name, value⟩, proper := .inl rfl, writes := h }

/-- An attribute with a new value, byte by byte. -/
theorem WrittenAttr.bytes_assign (a : WrittenAttr) {value : String} {raw : Bytes}
    (h : Writes (.value 0x22) raw value) : (a.assign h).bytes = a.lead ++ (0x22 :: raw ++ [0x22]) := by
  rw [bytes_eq]
  rfl

/-- Around an attribute of a name the tag is kept; its own name is plain. -/
theorem WrittenTag.Shows.split (h : t.Shows name) (hname : IsPlainName name)
    (hattrs : t.attrs = l ++ a :: r) (hl : ∀ b ∈ l, b.name ≠ Bytes.ofString name)
    (ha : a.name = Bytes.ofString name) (scope : Scope) :
    a.attr.name.space = "" ∧ (scope.keep a.attr).name = name ∧
      ∀ x ∈ l.map fun b => scope.keep b.attr, x.name ≠ name := by
  have hmem : ∀ b, b ∈ l ∨ b = a → b ∈ t.attrs := by
    intro b hb
    rw [hattrs]
    rcases hb with hb | rfl
    · exact List.mem_append_left _ hb
    · simp
  have hparts := a.spells.parts
  rw [ha, hname.spells.parts] at hparts
  refine ⟨?_, (h.attrName_iff hname (hmem a (.inr rfl))).mpr ha, ?_⟩
  · rw [← Option.some.inj hparts]
  · intro x hx
    obtain ⟨b, hb, rfl⟩ := List.mem_map.mp hx
    exact fun hkept => hl b hb ((h.attrName_iff hname (hmem b (.inl hb))).mp hkept)

/-- An attribute of the tag gets another value. -/
theorem exists_assign (h : t.Shows name) (hname : IsPlainName name)
    (hattrs : t.attrs = l ++ a :: r) (hl : ∀ b ∈ l, b.name ≠ Bytes.ofString name)
    (ha : a.name = Bytes.ofString name) {value : String} {raw : Bytes}
    (hwrites : Writes (.value 0x22) raw value) :
    ∃ t' : WrittenTag, t'.bytes = t.upTo l ++ (a.lead ++ (0x22 :: raw ++ [0x22] ++ t.onward r)) ∧
      Retagged t t' (setAttribute name value) := by
  have hblank : ∀ b ∈ (l ++ a.assign hwrites :: r).head?, b.blank ≠ [] := by
    have hhead := t.separated
    rw [hattrs] at hhead
    cases l with
    | nil => simpa [WrittenAttr.assign] using hhead
    | cons b l => simpa using hhead
  let t' : WrittenTag := { t with attrs := l ++ a.assign hwrites :: r, separated := hblank }
  refine ⟨t', ?_, .of_keep rfl rfl ?_ ?_⟩
  · rw [t'.bytes_split rfl]
    simp [WrittenTag.upTo, WrittenTag.onward, WrittenAttr.bytes_assign, t']
  · intro scope
    obtain ⟨hplain, -⟩ := h.split hname hattrs hl ha scope
    have hsplit : t.tagAttrs = l.map WrittenAttr.attr ++ a.attr :: r.map WrittenAttr.attr := by
      simp [WrittenTag.tagAttrs, hattrs]
    have hsplit' : t'.tagAttrs =
        l.map WrittenAttr.attr ++ ⟨a.attr.name, value⟩ :: r.map WrittenAttr.attr := by
      simp [WrittenTag.tagAttrs, WrittenAttr.assign, t']
    rw [hsplit, hsplit']
    exact (scope.agrees_declare (a := ⟨a.attr.name, value⟩) _ _ hplain).trans
      (scope.agrees_declare _ _ hplain).symm
  · rintro k ⟨scope, rfl⟩
    obtain ⟨-, hself, hleft⟩ := h.split hname hattrs hl ha scope
    have hself' : scope.keep ⟨a.attr.name, value⟩ = ⟨name, value⟩ :=
      congrArg (Attribute.mk · value) hself
    simp only [WrittenTag.tagAttrs, hattrs, t', List.map_append, List.map_cons, List.map_map,
      Function.comp_def, WrittenAttr.assign, hself']
    rw [setAttribute_append hleft, setAttribute, if_pos hself]

/-- An attribute of the tag is left out. -/
theorem exists_without (h : t.Shows name) (hname : IsPlainName name)
    (hattrs : t.attrs = l ++ a :: r) (hl : ∀ b ∈ l, b.name ≠ Bytes.ofString name)
    (ha : a.name = Bytes.ofString name) :
    ∃ t' : WrittenTag, t'.bytes = t.upTo l ++ t.onward r ∧
      Retagged t t' fun attrs => attrs.eraseP (·.name = name) := by
  have hblank : ∀ b ∈ (l ++ r).head?, b.blank ≠ [] := by
    intro b hb
    refine h.parted b ?_
    rw [hattrs]
    rcases List.mem_append.mp (List.mem_of_mem_head? hb) with hb | hb
    · exact List.mem_append_left _ hb
    · exact List.mem_append_right _ (List.mem_cons_of_mem a hb)
  let t' : WrittenTag := { t with attrs := l ++ r, separated := hblank }
  refine ⟨t', t'.bytes_split rfl, .of_keep rfl rfl ?_ ?_⟩
  · intro scope
    obtain ⟨hplain, -⟩ := h.split hname hattrs hl ha scope
    have hsplit : t.tagAttrs = l.map WrittenAttr.attr ++ a.attr :: r.map WrittenAttr.attr := by
      simp [WrittenTag.tagAttrs, hattrs]
    have hsplit' : t'.tagAttrs = l.map WrittenAttr.attr ++ r.map WrittenAttr.attr := by
      simp [WrittenTag.tagAttrs, t']
    rw [hsplit, hsplit']
    exact (scope.agrees_declare _ _ hplain).symm
  · rintro k ⟨scope, rfl⟩
    obtain ⟨-, hself, hleft⟩ := h.split hname hattrs hl ha scope
    simp only [WrittenTag.tagAttrs, hattrs, t', List.map_append, List.map_cons, List.map_map,
      Function.comp_def]
    rw [List.eraseP_append_right _ (by simpa using hleft), List.eraseP_cons_of_pos]
    exact decide_eq_true hself

/-- An attribute is added to a tag, before some of its last blanks. -/
theorem exists_added (h : t.Shows name) (hname : IsPlainName name)
    (hnone : ∀ b ∈ t.attrs, b.name ≠ Bytes.ofString name) {value : String}
    (hvalue : Markup.Writable value) {left right : Bytes} (hblank : t.blank = left ++ right) :
    ∃ t' : WrittenTag, t'.bytes = t.upTo t.attrs ++ (left ++
        (Bytes.ofString (" " ++ name ++ "=" ++ Markup.quotedValue value) ++
          (right ++ closing t.selfClosing))) ∧
      Retagged t t' (setAttribute name value) := by
  obtain ⟨w, hw, hattr, hne⟩ := Markup.exists_writtenAttr (a := ⟨name, value⟩) ⟨hname, hvalue⟩
  have hspace : ∀ b, b ∈ left ∨ b ∈ right → isSpaceByte b = true := by
    intro b hb
    refine t.blank_space b ?_
    rw [hblank]
    exact List.mem_append.mpr hb
  let w' : WrittenAttr :=
    { w with
      blank := left ++ w.blank
      blank_space := fun b hb => by
        rcases List.mem_append.mp hb with hb | hb
        · exact hspace b (.inl hb)
        · exact w.blank_space b hb }
  have hseparated : ∀ b ∈ (t.attrs ++ [w']).head?, b.blank ≠ [] := by
    have hhead := t.separated
    cases hattrs : t.attrs with
    | nil => simp [w', hne]
    | cons b l => simpa [hattrs] using hhead
  let t' : WrittenTag :=
    { t with
      attrs := t.attrs ++ [w']
      blank := right
      separated := hseparated
      blank_space := fun b hb => hspace b (.inr hb) }
  have htagAttrs : t'.tagAttrs = t.tagAttrs ++ [⟨⟨"", name⟩, value⟩] := by
    simp [WrittenTag.tagAttrs, t', w', hattr]
  refine ⟨t', ?_, .of_keep rfl rfl ?_ ?_⟩
  · rw [t'.bytes_split (l := t.attrs) (r := [w']) rfl, hw]
    simp [WrittenTag.upTo, WrittenTag.onward, WrittenAttr.bytes, t', w']
    rfl
  · intro scope
    have hagrees := scope.agrees_declare (a := ⟨⟨"", name⟩, value⟩) t.tagAttrs [] rfl
    rwa [List.append_nil, ← htagAttrs] at hagrees
  · rintro k ⟨scope, rfl⟩
    have hold : ∀ x ∈ t.tagAttrs.map scope.keep, x.name ≠ name := by
      intro x hx
      obtain ⟨y, hy, rfl⟩ := List.mem_map.mp hx
      obtain ⟨b, hb, rfl⟩ := List.mem_map.mp hy
      exact fun hkept => hnone b hb ((h.attrName_iff hname hb).mp hkept)
    have hkeep : scope.keep ⟨⟨"", name⟩, value⟩ = ⟨name, value⟩ := by
      rw [Scope.keep, attrName_plain]
    have hset : setAttribute name value (t.tagAttrs.map scope.keep ++ []) = _ :=
      setAttribute_append hold
    rw [List.append_nil] at hset
    rw [htagAttrs, List.map_append, List.map_singleton, hkeep, hset]
    rfl

end Shown

end Xml

end InstallerLint

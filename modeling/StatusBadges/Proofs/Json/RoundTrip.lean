import Mathlib.Data.List.DropRight
import StatusBadges.BadgeRecord
import StatusBadges.Proofs.Json.Grammar

/-!
# Records are read from every text of theirs

Every law here holds with any text behind what is read, so that the laws for characters, strings and
fields compose. A string is read however its characters are spelled (`decode_of_isText`), and the
fields of an object are read in order with any white space around them (`readFields_of_separated`).
So a badge record is read from every text of its document (`decode?_of_isText`), among them the one
in which it is written (`decode?_encode`).
-/

namespace StatusBadges

namespace Json

namespace Quoted

/-! ## Strings -/

theorem codeUnit?_append {s more : List Char} {n : Nat} (h : codeUnit? s = some (n, more))
    (rest : List Char) : codeUnit? (s ++ rest) = some (n, more ++ rest) := by
  match s, h with
  | a :: b :: c :: d :: _, h =>
    cases ha : hexValue? a <;> cases hb : hexValue? b <;> cases hc : hexValue? c <;>
      cases hd : hexValue? d <;> simp [codeUnit?, ha, hb, hc, hd] at h
    obtain ⟨rfl, rfl⟩ := h
    simp [codeUnit?, ha, hb, hc, hd]

theorem unicodeEscape?_unit {c : Char} {digits : List Char}
    (h : codeUnit? digits = some (c.toNat, [])) (rest : List Char) :
    unicodeEscape? (digits ++ rest) = some (c, rest) := by
  have hscalar : c.toNat < 0xD800 ∨ 0xE000 ≤ c.toNat := by
    rcases c.valid with hlow | hhigh
    · exact Or.inl hlow
    · exact Or.inr hhigh.1
  simp only [unicodeEscape?, codeUnit?_append h, List.nil_append, if_pos hscalar, Char.ofNat_toNat]

theorem unicodeEscape?_pair {c : Char} {first second : List Char} {lead trail : Nat}
    (hfirst : codeUnit? first = some (lead, [])) (hlead : 0xD800 ≤ lead ∧ lead < 0xDC00)
    (hsecond : codeUnit? second = some (trail, [])) (htrail : 0xDC00 ≤ trail ∧ trail < 0xE000)
    (hc : c.toNat = 0x10000 + (lead - 0xD800) * 0x400 + (trail - 0xDC00)) (rest : List Char) :
    unicodeEscape? (first ++ '\\' :: 'u' :: (second ++ rest)) = some (c, rest) := by
  have hsurrogate : ¬ (lead < 0xD800 ∨ 0xE000 ≤ lead) := by omega
  have hleads : ¬ 0xDC00 ≤ lead := by omega
  simp only [unicodeEscape?, codeUnit?_append hfirst, codeUnit?_append hsecond, List.nil_append,
    if_neg hsurrogate, if_neg hleads, if_pos htrail, ← hc, Char.ofNat_toNat]

/-- A character is read from each of its spellings, and none of them begins with a quote. -/
theorem decodeChar?_of_spells {c : Char} {spelling : List Char} (h : Spells c spelling)
    (rest : List Char) :
    decodeChar? (spelling ++ rest) = some (c, rest) ∧ (spelling ++ rest).head? ≠ some '"' := by
  cases h with
  | plain hquote hback hcontrol =>
    have hlow : ¬ c.toNat < 0x20 := Nat.not_lt.2 hcontrol
    exact ⟨by simp [decodeChar?, hback, hlow], by simpa using hquote⟩
  | letter h =>
    rename_i e
    have he : e ≠ 'u' := by
      rintro rfl
      cases h
    exact ⟨by simp [decodeChar?, he, h], by simp⟩
  | unit h =>
    refine ⟨?_, by simp⟩
    rw [← unicodeEscape?_unit h rest]
    simp [decodeChar?]
  | pair hfirst hlead hsecond htrail hc =>
    refine ⟨?_, by simp⟩
    rw [← unicodeEscape?_pair hfirst hlead hsecond htrail hc rest]
    simp [decodeChar?]

theorem decode_of_decodeChar? {s rest : List Char} {c : Char}
    (h : decodeChar? s = some (c, rest)) (hs : s.head? ≠ some '"') :
    decode s = (decode rest).map fun (text, after) => (c :: text, after) := by
  rw [decode.eq_def]
  split
  · cases h
  · exact absurd rfl hs
  · split
    · next hn => rw [h] at hn; cases hn
    · next hn =>
      rw [h] at hn
      cases hn
      rfl

/-- **A string is read however it is spelled**, up to its closing quote and whatever follows
that. -/
theorem decode_of_isText {s text : List Char} (h : IsText s text) (rest : List Char) :
    ∃ inside, text ++ rest = '"' :: inside ∧ decode inside = some (s, rest) := by
  obtain ⟨spellings, hspells, rfl⟩ := h
  refine ⟨spellings.flatten ++ '"' :: rest, by simp, ?_⟩
  induction hspells with
  | nil => simp [decode]
  | @cons c spelling s spellings hc _ ih =>
    obtain ⟨hread, hhead⟩ := decodeChar?_of_spells hc (spellings.flatten ++ '"' :: rest)
    rw [List.flatten_cons, List.append_assoc, decode_of_decodeChar? hread hhead, ih]
    rfl

end Quoted

/-! ## White space -/

theorem skipSpace_append {space : List Char} (h : IsBlank space) (s : List Char) :
    skipSpace (space ++ s) = skipSpace s :=
  List.dropWhile_append_of_pos h

theorem skipSpace_cons {c : Char} (h : isSpace c = false) (s : List Char) :
    skipSpace (c :: s) = c :: s := by
  unfold skipSpace
  exact List.dropWhile_cons_of_neg (by simp [h])

/-! ## Values -/

/-- A reader reads a value from every text of a document, with white space before it. -/
def Reads {α : Type} (reader : Reader α) (document : Json) (value : α) : Prop :=
  ∀ before text rest, IsBlank before → IsText document text →
    reader (before ++ (text ++ rest)) = some (value, rest)

theorem Reads.map {α β : Type} {reader : Reader α} {document : Json} {value : α}
    (h : Reads reader document value) (f : α → β) :
    Reads (fun s => (reader s).map fun (a, rest) => (f a, rest)) document (f value) := by
  intro before text rest hbefore htext
  simp only [h before text rest hbefore htext]
  rfl

theorem reads_string (s : List Char) : Reads readString (.string s) s := by
  intro before text rest hbefore htext
  cases htext with
  | string htext =>
    obtain ⟨inside, hinside, hread⟩ := Quoted.decode_of_isText htext rest
    simp only [readString, skipSpace_append hbefore, hinside,
      skipSpace_cons (show isSpace '"' = false from rfl), hread]

/-! ## Fields -/

section Fields

variable {α : Type} {shape : Shape α}

/-- The field is known to the shape and its value is read. -/
def Fits (shape : Shape α) (field : List Char × Json) (value : List Char × α) : Prop :=
  field.1 = value.1 ∧ ∃ reader, shape.lookup value.1 = some reader ∧
    Reads reader field.2 value.2

/-- The value of one field is read, and the fields behind it are read next. -/
theorem readFields_cons {field : List Char × Json} {value : List Char × α}
    (h : Fits shape field value) {found : List (List Char × α)}
    (hnew : found.lookup value.1 = none) (fuel : Nat) {before text : List Char}
    (hbefore : IsBlank before) (htext : IsField field text) (rest : List Char) :
    readFields shape (fuel + 1) found (before ++ (text ++ rest)) =
      match skipSpace rest with
      | ',' :: rest => readFields shape fuel (found ++ [value]) rest
      | '\x7d' :: rest => some (found ++ [value], rest)
      | _ => none := by
  obtain ⟨hname, reader, hl, hr⟩ := h
  cases htext with
  | @field name nameText text space space' document hnameText hspace hspace' htext =>
    obtain ⟨inside, hinside, hread⟩ := Quoted.decode_of_isText hnameText
      (space ++ ':' :: (space' ++ (text ++ rest)))
    have hcolon (s : List Char) : skipSpace (':' :: s) = ':' :: s := skipSpace_cons rfl s
    have hquote (s : List Char) : skipSpace ('"' :: s) = '"' :: s := skipSpace_cons rfl s
    simp only at hname hr
    simp only [List.append_assoc, List.cons_append, readFields, skipSpace_append hbefore, hinside,
      hquote, hread, skipSpace_append hspace, hcolon, hname, hl, hnew,
      hr space' text rest hspace' htext]
    rfl

theorem lookup_eq_none_of_notMem {found : List (List Char × α)} {name : List Char}
    (h : name ∉ found.map (·.1)) : found.lookup name = none := by
  rw [List.lookup_eq_none_iff]
  intro e he
  have hne : name ≠ e.1 := fun e' => h (e' ▸ List.mem_map_of_mem he)
  simpa using hne

/-- The fields of an object are read in order behind those already found. -/
theorem readFields_of_separated {fields : List (List Char × Json)} {inside : List Char}
    (hinside : Separated IsField fields inside) {values : List (List Char × α)}
    (h : List.Forall₂ (Fits shape) fields values) (found : List (List Char × α))
    (hd : ((found ++ values).map (·.1)).Nodup) (fuel : Nat) (hfuel : fields.length ≤ fuel)
    (rest : List Char) :
    readFields shape fuel found (inside ++ '\x7d' :: rest) = some (found ++ values, rest) := by
  have hnew {value : List Char × α} {values : List (List Char × α)}
      {found : List (List Char × α)} (hd : ((found ++ value :: values).map (·.1)).Nodup) :
      found.lookup value.1 = none := by
    apply lookup_eq_none_of_notMem
    intro hmem
    rw [List.map_append, List.nodup_append] at hd
    exact hd.2.2 _ hmem _ (by simp) rfl
  induction hinside generalizing values found fuel with
  | one hbefore htext hbehind =>
    cases h with
    | cons hfit hnil =>
      cases hnil
      obtain ⟨fuel, rfl⟩ := Nat.exists_eq_add_of_le' hfuel
      rw [List.append_assoc, List.append_assoc]
      refine (readFields_cons hfit (hnew hd) fuel hbefore htext _).trans ?_
      rw [skipSpace_append hbehind, skipSpace_cons rfl]
      rfl
  | more hbefore htext hbehind _ ih =>
    cases h with
    | @cons _ value _ values hfit hfits =>
      obtain ⟨fuel, rfl⟩ := Nat.exists_eq_add_of_le' (Nat.le_of_add_left_le hfuel)
      rw [List.append_assoc, List.append_assoc, List.append_assoc, List.cons_append]
      refine (readFields_cons hfit (hnew hd) fuel hbefore htext _).trans ?_
      rw [skipSpace_append hbehind, skipSpace_cons rfl]
      have hrest := ih hfits (found ++ [value]) (by simpa using hd) fuel (by simpa using hfuel)
      simpa using hrest

theorem length_le_of_separated {fields : List (List Char × Json)} {inside : List Char}
    (h : Separated IsField fields inside) : fields.length ≤ inside.length := by
  induction h with
  | one _ htext _ =>
    cases htext
    simp only [List.length_append, List.length_cons, List.length_nil]
    omega
  | more _ _ _ _ ih =>
    simp only [List.length_append, List.length_cons]
    omega

theorem exists_eq_cons_of_isField {field : List Char × Json} {text : List Char}
    (h : IsField field text) : ∃ tail, text = '"' :: tail := by
  cases h with
  | field hname _ _ _ =>
    obtain ⟨spellings, -, rfl⟩ := hname
    exact ⟨_, rfl⟩

/-- The fields of an object begin with a quote behind white space. -/
theorem exists_skipSpace_of_separated {fields : List (List Char × Json)} {inside : List Char}
    (h : Separated IsField fields inside) (rest : List Char) :
    ∃ tail, skipSpace (inside ++ rest) = '"' :: tail ∧ fields.length ≤ tail.length + 1 := by
  have hfirst {field : List Char × Json} {before text : List Char} (hbefore : IsBlank before)
      (htext : IsField field text) (rest : List Char) :
      ∃ tail, skipSpace (before ++ (text ++ rest)) = '"' :: tail ∧ rest.length ≤ tail.length := by
    obtain ⟨tail, rfl⟩ := exists_eq_cons_of_isField htext
    refine ⟨tail ++ rest, ?_, by simp⟩
    rw [skipSpace_append hbefore, List.cons_append, skipSpace_cons rfl]
  cases h with
  | @one _ before text behind hbefore htext _ =>
    obtain ⟨tail, htail, -⟩ := hfirst hbefore htext (behind ++ rest)
    exact ⟨tail, by simpa using htail, by simp⟩
  | @more _ fields before text behind inside hbefore htext _ hrest =>
    obtain ⟨tail, htail, hlength⟩ := hfirst hbefore htext (behind ++ ',' :: (inside ++ rest))
    refine ⟨tail, by simpa using htail, ?_⟩
    have hfields := length_le_of_separated hrest
    simp only [List.length_append, List.length_cons] at hlength ⊢
    omega

theorem readFields_skipSpace (shape : Shape α) (fuel : Nat) (found : List (List Char × α))
    (s : List Char) :
    readFields shape fuel found (skipSpace s) = readFields shape fuel found s := by
  have hskip : skipSpace (skipSpace s) = skipSpace s := List.dropWhile_idempotent isSpace s
  cases fuel with
  | zero => rfl
  | succ fuel => simp only [readFields, hskip]

/-- **An object is read as a record** whose shape knows its fields. -/
theorem readRecord_of_isText {fields : List (List Char × Json)} {values : List (List Char × α)}
    (h : List.Forall₂ (Fits shape) fields values) (hne : fields ≠ [])
    (hd : (values.map (·.1)).Nodup) : Reads (readRecord shape) (.object fields) values := by
  intro before text rest hbefore htext
  cases htext with
  | emptyObject _ => exact absurd rfl hne
  | @object _ inside hinside =>
    have hopen : skipSpace (before ++ ('\x7b' :: (inside ++ ['\x7d']) ++ rest)) =
        '\x7b' :: (inside ++ '\x7d' :: rest) := by
      rw [skipSpace_append hbefore, List.cons_append, skipSpace_cons rfl, List.append_assoc,
        List.singleton_append]
    obtain ⟨tail, htail, hlength⟩ := exists_skipSpace_of_separated hinside ('\x7d' :: rest)
    have hread := readFields_of_separated hinside h [] hd (tail.length + 2) (by omega) rest
    rw [← readFields_skipSpace, htail] at hread
    simp only [readRecord, hopen, htail]
    exact hread

end Fields

end Json

/-! ## Badge records -/

namespace BadgeRecord

theorem reads_badges (b : BadgeSet) : Json.Reads readBadges b.toJson b := by
  intro before text rest hbefore htext
  have hfits : List.Forall₂ (Json.Fits [("version".toList, Json.readString),
      ("build".toList, Json.readString), ("tests".toList, Json.readString),
      ("coverage".toList, Json.readString)])
      (b.toList.map fun e => (e.1.toList, Json.ofString e.2))
      (b.toList.map fun e => (e.1.toList, e.2.toList)) := by
    simp only [BadgeSet.toList, List.map_cons, List.map_nil]
    refine .cons ⟨rfl, _, ?_, Json.reads_string _⟩ <|
      .cons ⟨rfl, _, ?_, Json.reads_string _⟩ <|
      .cons ⟨rfl, _, ?_, Json.reads_string _⟩ <|
      .cons ⟨rfl, _, ?_, Json.reads_string _⟩ .nil
    all_goals simp [List.lookup_cons]
  have hnames : ((b.toList.map fun e => (e.1.toList, e.2.toList)).map fun e => e.1).Nodup := by
    simp [BadgeSet.toList]
  have hread := Json.readRecord_of_isText hfits (by simp [BadgeSet.toList]) hnames before text rest
    hbefore htext
  simp only [readBadges, hread]
  simp [BadgeSet.toList, List.lookup_cons]

theorem reads_record (r : BadgeRecord) : Json.Reads read r.toJson r := by
  intro before text rest hbefore htext
  have hfits : List.Forall₂ (Json.Fits [("generated_at".toList, _), ("badges".toList, _)])
      [("generated_at".toList, .ofString r.generatedAt), ("badges".toList, r.badges.toJson)]
      [("generated_at".toList, Field.time r.generatedAt.toList),
        ("badges".toList, Field.badges r.badges)] :=
    .cons ⟨rfl, _, rfl, (Json.reads_string _).map Field.time⟩ <|
      .cons ⟨rfl, _, rfl, (reads_badges _).map Field.badges⟩ .nil
  have hread := Json.readRecord_of_isText hfits (by simp) (by simp) before text rest hbefore htext
  simp only [read, hread]
  simp [List.lookup_cons]

/-- **A badge record is read from every text of its document**, with white space around it. -/
theorem decode?_of_isText {r : BadgeRecord} {before text behind : List Char}
    (hbefore : Json.IsBlank before) (htext : Json.IsText r.toJson text)
    (hbehind : Json.IsBlank behind) :
    decode? (String.ofList (before ++ (text ++ behind))) = some r := by
  have hread := reads_record r before text behind hbefore htext
  have hend : Json.skipSpace behind = [] := by
    have h := Json.skipSpace_append hbehind []
    rwa [List.append_nil] at h
  simp [decode?, Json.readAll?, hread, hend]

theorem numeric_toJson (r : BadgeRecord) : r.toJson.Numeric := by
  simp [toJson, BadgeSet.toJson, BadgeSet.toList, Json.ofString, Json.Numeric, Json.NumericFields]

/-- A record is written as a text of its document. -/
theorem isText_encode (r : BadgeRecord) : Json.IsText r.toJson r.encode.toList := by
  have htext : r.encode.toList = r.toJson.pretty := String.toList_ofList
  rw [htext]
  exact Json.isText_pretty (numeric_toJson r)

/-- **A badge record is read back from its text.** -/
theorem decode?_encode (r : BadgeRecord) : decode? r.encode = some r := by
  have hread := decode?_of_isText Json.isBlank_nil (isText_encode r) Json.isBlank_nil
  simpa using hread

end BadgeRecord

end StatusBadges

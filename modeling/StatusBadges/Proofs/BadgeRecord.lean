import StatusBadges.Proofs.Pipeline

/-!
# What the data file holds

The file of a saved record holds its text. The text is JSON for an object with the time and the
badges, in this order (`document`), and the record is read back from it, whatever characters its
texts have (`kept_in_text`).
-/

namespace StatusBadges.BadgeRecord

theorem encode_injective : Function.Injective encode := by
  intro r r' h
  have hread := decode?_encode r
  rw [h, decode?_encode] at hread
  exact (Option.some.inj hread).symm

/-- The object of a record: the time and then the badges, each under its name. -/
def document (r : BadgeRecord) : Json :=
  .object [("generated_at".toList, .string r.generatedAt.toList),
    ("badges".toList, .object
      [("version".toList, .string r.badges.version.toList),
        ("build".toList, .string r.badges.build.toList),
        ("tests".toList, .string r.badges.tests.toList),
        ("coverage".toList, .string r.badges.coverage.toList)])]

theorem toJson_eq_document (r : BadgeRecord) : r.toJson = r.document := rfl

theorem node?_of_save {p : Path} {r : BadgeRecord} {d d' : Disk} (hs : d.Settled)
    (h : Pipeline.save p r d = (.ok (), d')) :
    ∃ mode, d'.node? p = some (.file (.text r.encode) mode) := by
  obtain ⟨made, l, -, -, hl, hwrote⟩ := Pipeline.saves_of_save hs h
  obtain ⟨mode, hnode, -⟩ := hwrote.node
  exact ⟨mode, Disk.node?_of_resolve hl hnode⟩

/-- **The data file keeps a record.** Its text is JSON for the object of the record. The record is
read from this text, as from every other one of its object, and no other record has the same text.
Saving, where it is not refused, leaves this text in the file. -/
theorem kept_in_text (r : BadgeRecord) :
    Json.IsText r.document r.encode.toList ∧
      decode? r.encode = some r ∧
      (∀ text, Json.IsText r.document text → decode? (String.ofList text) = some r) ∧
      (∀ r' : BadgeRecord, r'.encode = r.encode ↔ r' = r) ∧
      ∀ (p : Path) (d d' : Disk), d.Settled → Pipeline.save p r d = (.ok (), d') →
        ∃ mode, d'.node? p = some (.file (.text r.encode) mode) := by
  rw [← toJson_eq_document]
  refine ⟨isText_encode r, decode?_encode r, fun text htext => ?_,
    fun r' => encode_injective.eq_iff, fun p d d' => node?_of_save⟩
  have hread := decode?_of_isText Json.isBlank_nil htext Json.isBlank_nil
  rwa [List.nil_append, List.append_nil] at hread

/-- A record with a quote, a backslash, control characters, a line separator and a character beyond
the code units. -/
def oddRecord : BadgeRecord where
  generatedAt := "\"now\"\\"
  badges := ⟨"v1\n\x01", "\u2028", "😀", ""⟩

/-- It is saved in a project without badges. -/
theorem kept_in_text_oddRecord :
    ∃ d mode, Pipeline.bareProject.disk.Settled ∧
      Pipeline.save Pipeline.bareConfig.dataPath oddRecord Pipeline.bareProject.disk = (.ok (), d) ∧
      d.node? Pipeline.bareConfig.dataPath = some (.file (.text oddRecord.encode) mode) ∧
      decode? oddRecord.encode = some oddRecord := by
  have hs : Pipeline.bareProject.disk.Settled := Disk.settled_of_node? rfl
  obtain ⟨d, hsave⟩ : ∃ d, Pipeline.save Pipeline.bareConfig.dataPath oddRecord
      Pipeline.bareProject.disk = (.ok (), d) := ⟨_, rfl⟩
  obtain ⟨-, hread, -, -, hfile⟩ := kept_in_text oddRecord
  obtain ⟨mode, hnode⟩ := hfile _ _ d hs hsave
  exact ⟨d, mode, hs, hsave, hnode, hread⟩

end StatusBadges.BadgeRecord

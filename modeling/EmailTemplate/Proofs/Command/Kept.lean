import EmailTemplate.Proofs.Command.Batch
import EmailTemplate.Proofs.Manifest.RoundTrip

/-! Templates that were written to a file. The file is read back as the template that went into it,
and its text is the template's html. -/

namespace EmailTemplate

theorem Files.Disk.read_write {d d' : Disk} {path text : String}
    (h : d.write path text = .ok d') : d'.read path = .ok text.toUTF8 := by
  obtain ⟨place, hlocate, rfl⟩ := write_eq_ok h
  have hallowed : (d.isDirectory place || asksDirectory path) = false := by
    by_contra hrefused
    rw [write, hlocate] at h
    simp [bind, Except.bind, hrefused, throw, throwThe, MonadExceptOf.throw] at h
  obtain ⟨-, hasks⟩ := Bool.or_eq_false_iff.mp hallowed
  have hlocate' : ({ d with files := putFile place text.toUTF8 d.files } : Disk).locate path =
      .ok place := by
    rw [locate] at hlocate ⊢
    split at hlocate
    · cases hlocate
    · next hroot =>
      rw [if_neg hroot]
      exact follow_mono (fun p hp => (isDirectory_put place text.toUTF8).mpr (.inl hp)) hlocate
  exact read_eq hlocate' ((file?_put place text.toUTF8).trans (if_pos rfl)) hasks

namespace Command

open Files Json

theorem textOf_toUTF8 (text : String) : textOf text.toUTF8 = .ok text := by
  have hvalid : text.toUTF8.IsValidUTF8 := text.isValidUTF8
  rw [textOf, String.fromUTF8?, dif_pos hvalid]
  rfl

theorem templateOf_pretty (t : AdaptedTemplate) : templateOf t.encode.pretty = t.html := by
  rw [templateOf, t.decodeText_pretty]

section

variable {d d' : Disk}

theorem readBytes_run (path : String) :
    (readBytes path : Step (StateM Disk) ByteArray).run d =
      ((d.read path).mapError Failure.file, d) := rfl

/-- To read a message changes nothing. -/
theorem readMessage_state (limits : Limits) (path : String) :
    ((readMessage limits path : Step (StateM Disk) String).run d).2 = d := by
  cases hread : d.read path with
  | ok bytes => rw [readMessage_run limits hread]
  | error fault =>
    have hbytes := readBytes_run path (d := d)
    rw [hread, Except.mapError] at hbytes
    rw [readMessage, run_bind_error hbytes]

theorem readTemplate_run {path text : String} (h : d.read path = .ok text.toUTF8) :
    (readTemplate path : Step (StateM Disk) String).run d = (.ok (templateOf text), d) := by
  have hbytes := readBytes_run path (d := d)
  rw [h, Except.mapError] at hbytes
  have htext : (readText path : Step (StateM Disk) String).run d = (.ok text, d) := by
    rw [readText, run_bind_ok hbytes, textOf_toUTF8]
    rfl
  rw [readTemplate, map_eq_pure_bind, run_bind_ok htext]
  rfl

theorem write_of_writeText_run {path text : String}
    (h : (writeText path text : Step (StateM Disk) Unit).run d = (.ok (), d')) :
    d.write path text = .ok d' := by
  have hrun : (writeText path text : Step (StateM Disk) Unit).run d =
      ((Disk.attempt (·.write path text) d).1.mapError Failure.file,
        (Disk.attempt (·.write path text) d).2) := rfl
  rw [hrun, Disk.attempt] at h
  cases hwrite : d.write path text with
  | error fault =>
    rw [hwrite] at h
    cases h
  | ok written =>
    rw [hwrite] at h
    have hwritten : written = d' := congrArg Prod.snd h
    rw [hwritten]

/-- What a run that ends well has done: it wrote the template of the message that it read. -/
theorem runAdapt_written {config : Config} {options : AdaptOptions} {file out : String}
    {shown : Shown}
    (h : (runAdapt config options file (some out) : Step (StateM Disk) Shown).run d =
      (.ok shown, d')) :
    ∃ text, (readMessage config.limits file : Step (StateM Disk) String).run d = (.ok text, d) ∧
      d.write out (adapt options text).encode.pretty = .ok d' := by
  obtain ⟨result, after, hmessage⟩ : ∃ result after,
      (readMessage config.limits file : Step (StateM Disk) String).run d = (result, after) :=
    ⟨_, _, rfl⟩
  obtain rfl : after = d := by
    have hstate := readMessage_state config.limits file (d := d)
    rwa [hmessage] at hstate
  cases result with
  | error e =>
    rw [runAdapt, run_bind_error hmessage] at h
    cases h
  | ok text =>
    refine ⟨text, hmessage, ?_⟩
    rw [runAdapt, run_bind_ok hmessage] at h
    obtain ⟨written, last, hwrite⟩ : ∃ written last,
        (writeText out (adapt options text).encode.pretty : Step (StateM Disk) Unit).run after =
          (written, last) := ⟨_, _, rfl⟩
    cases written with
    | error e =>
      simp only at h
      rw [run_bind_error hwrite] at h
      cases h
    | ok u =>
      simp only at h
      rw [run_bind_ok hwrite] at h
      obtain rfl : last = d' := congrArg Prod.snd h
      exact write_of_writeText_run hwrite

theorem runAdapt_run {config : Config} {options : AdaptOptions} {file out text : String}
    (hmessage : (readMessage config.limits file : Step (StateM Disk) String).run d = (.ok text, d))
    (hwrite : d.write out (adapt options text).encode.pretty = .ok d') :
    (runAdapt config options file (some out) : Step (StateM Disk) Shown).run d =
      (.ok ⟨"", Summary.ofTemplate (adapt options text), none⟩, d') := by
  rw [runAdapt, run_bind_ok hmessage]
  exact run_bind_ok (writeText_run hwrite)

end

/-- Whatever is in a template or a report, its text is read back as it was, and so is the template
in a file that a message was adapted into. -/
theorem decodeText_written :
    (∀ t : AdaptedTemplate, decodeText (AdaptedTemplate.decode .text) t.encode.pretty = .ok t) ∧
      (∀ (config : Config) (options : AdaptOptions) (file out : String) (d d' : Disk)
          (shown : Shown),
        (runAdapt config options file (some out) : Step (StateM Disk) Shown).run d =
            (.ok shown, d') →
          ∃ text,
            (readMessage config.limits file : Step (StateM Disk) String).run d = (.ok text, d) ∧
            (readTemplate out : Step (StateM Disk) String).run d' =
              (.ok (adapt options text).html, d')) ∧
      ∀ r : ValidationReport,
        decodeText (ValidationReport.decode .text) r.encode.pretty = .ok r ∧
          decodeText (ValidationReport.decode .text) r.encode.toLine = .ok r := by
  refine ⟨AdaptedTemplate.decodeText_pretty, ?_, fun r => ?_⟩
  · intro config options file out d d' shown h
    obtain ⟨text, hmessage, hwrite⟩ := runAdapt_written h
    have hread := readTemplate_run (Disk.read_write hwrite)
    rw [templateOf_pretty] at hread
    exact ⟨text, hmessage, hread⟩
  · have hdecode := ValidationReport.decode_encode .text r
    exact ⟨decodeText_pretty r.encode_numberless hdecode,
      decodeText_toLine r.encode_numberless hdecode⟩

/-- A disk with one message. -/
def letter : Disk := ⟨[(["a.html"], "<p>One".toUTF8)], []⟩

theorem readMessage_letter :
    (readMessage Limits.standard "a.html" : Step (StateM Disk) String).run letter =
      (.ok "<p>One", letter) := by
  have hread : letter.read "a.html" = .ok "<p>One".toUTF8 := rfl
  have htext : textWithin Limits.standard "<p>One".toUTF8 = .ok "<p>One" :=
    textWithin_eq_ok.mpr ⟨by decide, by decide +kernel⟩
  rw [readMessage_run Limits.standard hread, htext]

theorem exists_runAdapt_letter (options : AdaptOptions) :
    ∃ d' shown, (runAdapt .standard options "a.html" (some "t.json") :
      Step (StateM Disk) Shown).run letter = (.ok shown, d') := by
  have hlocate : letter.locate "t.json" = .ok ["t.json"] := rfl
  have hfree : letter.isDirectory ["t.json"] = false := by decide
  have hasks : Disk.asksDirectory "t.json" = false := by decide
  exact ⟨_, _, runAdapt_run readMessage_letter (Disk.write_eq hlocate hfree hasks)⟩

theorem decodeText_written_letter :
    ∃ d' shown,
      (runAdapt .standard .standard "a.html" (some "t.json") : Step (StateM Disk) Shown).run letter =
          (.ok shown, d') ∧
        (readTemplate "t.json" : Step (StateM Disk) String).run d' =
          (.ok (adapt .standard "<p>One").html, d') := by
  obtain ⟨d', shown, hrun⟩ := exists_runAdapt_letter .standard
  obtain ⟨text, hmessage, hkept⟩ := decodeText_written.2.1 _ _ _ _ _ _ _ hrun
  obtain rfl : text = "<p>One" :=
    Except.ok.inj (congrArg Prod.fst (hmessage.symm.trans readMessage_letter))
  exact ⟨d', shown, hrun, hkept⟩

end Command

end EmailTemplate

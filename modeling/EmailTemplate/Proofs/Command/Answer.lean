import EmailTemplate.Proofs.Command.Kept
import EmailTemplate.Proofs.Request
import EmailTemplate.Proofs.Settings.Layers

/-! The command that adapts a file beside the request to adapt a text. Under the settings of the
command they answer alike, a refusal for the size included, unless the file is empty: the request
refuses an empty text, and the command makes a template of it. -/

namespace EmailTemplate.Command

open Files

def Overrides.unchanged : Overrides := ⟨none, false, false, none⟩

/-- The request for what the command does without flags. -/
def requestFor (config : Config) (text : String) : AdaptRequest := ⟨some text, some config.adapt⟩

/-- The template as the command shows it when no file is named for it. -/
def showTemplate (t : AdaptedTemplate) : Shown := ⟨t.encode.pretty ++ "\n", [], none⟩

def Outcome.ofAnswer (answer : Except RequestError AdaptedTemplate) : Outcome :=
  .ofResult ((answer.mapError .request).map showTemplate)

/-! ### What an outcome shows -/

theorem ofResult_showTemplate (t : AdaptedTemplate) :
    Outcome.ofResult (.ok (showTemplate t)) = ⟨0, t.encode.pretty ++ "\n", ""⟩ := rfl

theorem encode_pretty_injective {t u : AdaptedTemplate} (h : t.encode.pretty = u.encode.pretty) :
    t = u := by
  have ht := t.decodeText_pretty
  rw [h, u.decodeText_pretty] at ht
  exact (Except.ok.inj ht).symm

/-- A template is shown for no answer but itself. -/
theorem ofAnswer_eq_shown_iff {answer : Except RequestError AdaptedTemplate} {t : AdaptedTemplate} :
    Outcome.ofAnswer answer = ⟨0, t.encode.pretty ++ "\n", ""⟩ ↔ answer = .ok t := by
  cases answer with
  | error e =>
    refine ⟨fun h => ?_, fun h => by cases h⟩
    have hcode : 1 = 0 := congrArg Outcome.code h
    cases hcode
  | ok u =>
    rw [Except.ok.injEq]
    constructor
    · intro h
      have houtput : u.encode.pretty ++ "\n" = t.encode.pretty ++ "\n" := congrArg Outcome.output h
      exact encode_pretty_injective ((String.append_left_inj "\n").mp houtput)
    · rintro rfl
      exact ofResult_showTemplate u

/-! ### The settings of a run -/

theorem fault?_of_load {file : Option ByteArray} {config : Config}
    (h : Config.load file = .ok config) : config.fault? = none := by
  cases file with
  | none => exact (Config.ofTable_eq_ok_iff.mp h).2
  | some bytes =>
    rw [Config.load] at h
    cases htext : String.fromUTF8? bytes with
    | none =>
      simp only [htext] at h
      cases h
    | some text =>
      simp only [htext] at h
      cases hread : Config.readTable text with
      | error e =>
        rw [hread] at h
        cases h
      | ok layer =>
        rw [hread] at h
        exact (Config.ofTable_eq_ok_iff.mp h).2

variable {d d' : Disk} {directory : String} {config : Config}

theorem loadSettings_run_ok {bytes : ByteArray}
    (h : d.read (join directory [settingsFile]) = .ok bytes) :
    (loadSettings directory : Step (StateM Disk) Config).run d =
      ((Config.load (some bytes)).mapError .settings, d) := by
  simp only [loadSettings, ExceptT.run, ExceptT.mk, bind, StateT.bind, pure, StateT.pure, Store.read, h]

section Unread

variable {fault : Fault} (h : d.read (join directory [settingsFile]) = .error fault)
include h

/-- Without a file of settings the standard ones are loaded. -/
theorem loadSettings_run_absent (hfault : fault = .missing ∨ fault = .notDirectory) :
    (loadSettings directory : Step (StateM Disk) Config).run d =
      ((Config.load none).mapError .settings, d) := by
  rcases hfault with rfl | rfl
  · simp only [loadSettings, ExceptT.run, ExceptT.mk, bind, StateT.bind, pure, StateT.pure,
      Store.read, h]
  · simp only [loadSettings, ExceptT.run, ExceptT.mk, bind, StateT.bind, pure, StateT.pure,
      Store.read, h]

theorem loadSettings_run_fault (hfault : ¬ (fault = .missing ∨ fault = .notDirectory)) :
    (loadSettings directory : Step (StateM Disk) Config).run d =
      (.error (.settings (.unreadable fault)), d) := by
  cases fault with
  | missing => exact absurd (.inl rfl) hfault
  | notDirectory => exact absurd (.inr rfl) hfault
  | _ =>
    simp only [loadSettings, ExceptT.run, ExceptT.mk, bind, StateT.bind, pure, StateT.pure,
      Store.read, h, Except.mapError]

end Unread

/-- Whatever settings a run has are within their range. -/
theorem fault?_of_loadSettings
    (h : (loadSettings directory : Step (StateM Disk) Config).run d = (.ok config, d')) :
    config.fault? = none := by
  have hload : ∀ loaded : Except SettingsError Config,
      (loaded.mapError Failure.settings, d) = (.ok config, d') → loaded = .ok config := by
    intro loaded hmap
    cases loaded with
    | error e => cases hmap
    | ok c => exact congrArg Except.ok (Except.ok.inj (congrArg Prod.fst hmap))
  cases hread : d.read (join directory [settingsFile]) with
  | ok bytes =>
    rw [loadSettings_run_ok hread] at h
    exact fault?_of_load (hload _ h)
  | error fault =>
    by_cases habsent : fault = .missing ∨ fault = .notDirectory
    · rw [loadSettings_run_absent hread habsent] at h
      exact fault?_of_load (hload _ h)
    · rw [loadSettings_run_fault hread habsent] at h
      cases h

theorem adapt_fault?_of_fault? (h : config.fault? = none) : config.adapt.fault? = none :=
  (Option.or_eq_none_iff.mp h).1

theorem chosenOptions_unchanged (h : config.fault? = none) :
    chosenOptions config .unchanged = .ok config.adapt := by
  have happly : Overrides.unchanged.apply config.adapt = config.adapt := by
    simp [Overrides.unchanged, Overrides.apply]
  rw [chosenOptions, happly]
  simp only [adapt_fault?_of_fault? h]

/-! ### The command and the request -/

/-- What the command answers to a text, for whose size alone it may refuse it. -/
def answerOf (config : Config) (text : String) : Except RequestError AdaptedTemplate :=
  (checkSize text.utf8ByteSize config.limits).map fun _ => adapt config.adapt text

theorem textWithin_toUTF8 (limits : Limits) (text : String) :
    textWithin limits text.toUTF8 =
      ((checkSize text.utf8ByteSize limits).mapError .request).map fun _ => text := by
  have hsize : text.toUTF8.size = text.utf8ByteSize := rfl
  rw [textWithin, hsize, textOf_toUTF8]
  cases checkSize text.utf8ByteSize limits <;> rfl

theorem runAdapt_run_shown {file text : String} (hfile : d.read file = .ok text.toUTF8) :
    (runAdapt config config.adapt file none : Step (StateM Disk) Shown).run d =
      (((answerOf config text).mapError .request).map showTemplate, d) := by
  have hmessage := readMessage_run config.limits hfile
  rw [textWithin_toUTF8] at hmessage
  rw [runAdapt, answerOf]
  cases hsize : checkSize text.utf8ByteSize config.limits with
  | error e =>
    rw [hsize] at hmessage
    exact run_bind_error hmessage
  | ok u =>
    rw [hsize] at hmessage
    rw [run_bind_ok hmessage]
    rfl

/-- The whole program, with arguments that spell the command without flags. -/
theorem runArguments_run {args : List String} {file text : String}
    (hargs : read args = .ok (directory, .adapt file none .unchanged))
    (hconfig : (loadSettings directory : Step (StateM Disk) Config).run d = (.ok config, d))
    (hfile : d.read file = .ok text.toUTF8) :
    (runArguments args : StateM Disk Outcome).run d = (.ofAnswer (answerOf config text), d) := by
  have hchosen : (ExceptT.mk (pure (chosenOptions config .unchanged)) :
      Step (StateM Disk) AdaptOptions).run d = (.ok config.adapt, d) := by
    rw [chosenOptions_unchanged (fault?_of_loadSettings hconfig)]
    rfl
  have hrun : (run directory (.adapt file none .unchanged) : Step (StateM Disk) Shown).run d =
      (((answerOf config text).mapError .request).map showTemplate, d) := by
    rw [run, run_bind_ok hconfig, run_bind_ok hchosen]
    exact runAdapt_run_shown hfile
  have hwhole : (runArguments args : StateM Disk Outcome).run d =
      (.ofResult ((run directory (.adapt file none .unchanged) : Step (StateM Disk) Shown).run d).1,
        ((run directory (.adapt file none .unchanged) : Step (StateM Disk) Shown).run d).2) := by
    simp only [runArguments, hargs]
    rfl
  rw [hwhole, hrun]
  rfl

theorem requestFor_run_empty (config : Config) :
    (requestFor config "").run config.limits = .error (.missingField "html") := rfl

theorem requestFor_run {text : String} (hconfig : config.fault? = none) (htext : text ≠ "") :
    (requestFor config text).run config.limits = answerOf config text := by
  have hfault := adapt_fault?_of_fault? hconfig
  have hne : text.isEmpty = false := by simpa [String.isEmpty_iff] using htext
  rw [AdaptRequest.run, answerOf, checkSize]
  by_cases hsize : config.limits.maxInputBytes < text.utf8ByteSize
  · have hrequire := require_eq_error hne hsize "html"
    simp only [requestFor, hrequire, hsize, if_true]
    rfl
  · have hrequire := require_eq_ok hne (Nat.le_of_not_lt hsize) "html"
    simp only [requestFor, hrequire, hsize, if_false, Option.getD_some]
    simp only [bind, Except.bind, hfault]
    rfl

theorem answerOf_of_le {text : String} (h : text.utf8ByteSize ≤ config.limits.maxInputBytes) :
    answerOf config text = .ok (adapt config.adapt text) := by
  rw [answerOf, checkSize, if_neg (Nat.not_lt.mpr h)]
  rfl

theorem answerOf_empty (config : Config) : answerOf config "" = .ok (adapt config.adapt "") :=
  answerOf_of_le (Nat.zero_le _)

/-- The command ends as the request tells, and shows a template exactly if the request gives that
template, for every text but the empty one. -/
theorem answers_alike_iff {args : List String} {file text : String}
    (hargs : read args = .ok (directory, .adapt file none .unchanged))
    (hconfig : (loadSettings directory : Step (StateM Disk) Config).run d = (.ok config, d))
    (hfile : d.read file = .ok text.toUTF8) :
    ((runArguments args : StateM Disk Outcome).run d =
        (.ofAnswer ((requestFor config text).run config.limits), d) ↔ text ≠ "") ∧
      ((∀ t : AdaptedTemplate, ((runArguments args : StateM Disk Outcome).run d).1 =
          ⟨0, t.encode.pretty ++ "\n", ""⟩ ↔
        (requestFor config text).run config.limits = .ok t) ↔ text ≠ "") := by
  have hrun := runArguments_run hargs hconfig hfile
  have hvalid := fault?_of_loadSettings hconfig
  rw [hrun]
  by_cases htext : text = ""
  · subst htext
    have hshown := ofAnswer_eq_shown_iff.mpr (answerOf_empty config)
    rw [requestFor_run_empty]
    refine ⟨iff_of_false (fun h => ?_) (not_not_intro rfl), iff_of_false (fun h => ?_)
      (not_not_intro rfl)⟩
    · have houtcome := congrArg Prod.fst h
      dsimp only at houtcome
      rw [hshown, eq_comm, ofAnswer_eq_shown_iff] at houtcome
      cases houtcome
    · have hanswer := (h (adapt config.adapt "")).mp hshown
      cases hanswer
  · rw [requestFor_run hvalid htext]
    exact ⟨iff_of_true rfl htext, iff_of_true (fun t => ofAnswer_eq_shown_iff) htext⟩

/-! ### A disk with one message -/

theorem read_adapt_letter :
    read ["adapt", "a.html"] = .ok (".", .adapt "a.html" none .unchanged) := by
  cbv

theorem loadSettings_standard (h : d.read (join directory [settingsFile]) = .error .missing) :
    (loadSettings directory : Step (StateM Disk) Config).run d = (.ok .standard, d) := by
  have hload : Config.load none = .ok .standard := by decide +kernel
  rw [loadSettings_run_absent h (.inl rfl), hload]
  rfl

theorem answers_alike_letter :
    ((runArguments ["adapt", "a.html"] : StateM Disk Outcome).run letter).1 =
      ⟨0, (adapt .standard "<p>One").encode.pretty ++ "\n", ""⟩ := by
  have hconfig : (loadSettings "." : Step (StateM Disk) Config).run letter =
      (.ok .standard, letter) := loadSettings_standard rfl
  have hfile : letter.read "a.html" = .ok "<p>One".toUTF8 := rfl
  have halike := (answers_alike_iff read_adapt_letter hconfig hfile).2.mpr (by decide)
  have hrequest : (requestFor .standard "<p>One").run Config.standard.limits =
      .ok (adapt .standard "<p>One") := by
    rw [requestFor_run (by decide) (by decide)]
    exact answerOf_of_le (by decide)
  exact (halike (adapt .standard "<p>One")).mpr hrequest

def blank : Disk := ⟨[(["a.html"], "".toUTF8)], []⟩

/-- An empty file is made into a template that the request does not give. -/
theorem not_answers_alike :
    ¬ ∀ (d : Disk) (args : List String) (directory file text : String) (config : Config),
      read args = .ok (directory, .adapt file none .unchanged) →
      (loadSettings directory : Step (StateM Disk) Config).run d = (.ok config, d) →
      d.read file = .ok text.toUTF8 →
      ∀ t : AdaptedTemplate, ((runArguments args : StateM Disk Outcome).run d).1 =
          ⟨0, t.encode.pretty ++ "\n", ""⟩ ↔
        (requestFor config text).run config.limits = .ok t := by
  intro h
  have hconfig : (loadSettings "." : Step (StateM Disk) Config).run blank =
      (.ok .standard, blank) := loadSettings_standard rfl
  have hfile : blank.read "a.html" = .ok "".toUTF8 := rfl
  have hrun := runArguments_run read_adapt_letter hconfig hfile
  have hanswer := (h blank _ _ _ _ _ read_adapt_letter hconfig hfile (adapt .standard "")).mp
  rw [hrun] at hanswer
  have hgiven := hanswer (ofAnswer_eq_shown_iff.mpr (answerOf_empty _))
  rw [requestFor_run_empty] at hgiven
  cases hgiven

end EmailTemplate.Command

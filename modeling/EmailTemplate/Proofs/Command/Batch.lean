import EmailTemplate.Command.Run
import EmailTemplate.Proofs.Files.Disk

/-! A directory of messages turned into templates. Each message gets a file of its own, whatever the
order, as long as the places for the files do not stand in each other's way. -/

namespace EmailTemplate.Command

open Files Disk

/-! ### One message -/

/-- The text that bytes stand for, if they are not over the limit. -/
def textWithin (limits : Limits) (bytes : ByteArray) : Except Failure String := do
  (checkSize bytes.size limits).mapError .request
  textOf bytes

theorem textWithin_eq_ok {limits : Limits} {bytes : ByteArray} {text : String} :
    textWithin limits bytes = .ok text ↔
      bytes.size ≤ limits.maxInputBytes ∧ String.fromUTF8? bytes = some text := by
  by_cases hsize : limits.maxInputBytes < bytes.size
  · have hle : ¬ bytes.size ≤ limits.maxInputBytes := by omega
    simp [textWithin, checkSize, hsize, hle, Except.mapError, bind, Except.bind]
  · have hle : bytes.size ≤ limits.maxInputBytes := by omega
    cases htext : String.fromUTF8? bytes with
    | none => simp [textWithin, checkSize, hsize, Except.mapError, bind, Except.bind, textOf, htext]
    | some t =>
      simp [textWithin, checkSize, hsize, hle, Except.mapError, bind, Except.bind, textOf, htext]

section Steps

variable {α β : Type} {d d' : Disk}

theorem run_bind_ok {x : Step (StateM Disk) α} {f : α → Step (StateM Disk) β} {a : α}
    (h : x.run d = (.ok a, d')) : (x >>= f).run d = (f a).run d' := by
  simp only [ExceptT.run] at h
  simp only [ExceptT.run, bind, ExceptT.bind, ExceptT.mk, StateT.bind, h]
  rfl

theorem run_bind_error {x : Step (StateM Disk) α} {f : α → Step (StateM Disk) β} {e : Failure}
    (h : x.run d = (.error e, d')) : (x >>= f).run d = (.error e, d') := by
  simp only [ExceptT.run] at h
  simp only [ExceptT.run, bind, ExceptT.bind, ExceptT.mk, StateT.bind, h]
  rfl

theorem readMessage_run (limits : Limits) {path : String} {bytes : ByteArray}
    (hread : d.read path = .ok bytes) :
    (readMessage limits path : Step (StateM Disk) String).run d = (textWithin limits bytes, d) := by
  have hbytes : (readBytes path : Step (StateM Disk) ByteArray).run d = (.ok bytes, d) := by
    have hrun : (readBytes path : Step (StateM Disk) ByteArray).run d =
        ((d.read path).mapError .file, d) := rfl
    rw [hrun, hread, Except.mapError]
  rw [readMessage, run_bind_ok hbytes, textWithin]
  cases hsize : checkSize bytes.size limits with
  | error e =>
    have hcheck : (check (checkSize bytes.size limits) : Step (StateM Disk) Unit).run d =
        (.error (.request e), d) := by
      rw [hsize]
      rfl
    rw [← hsize, run_bind_error hcheck, hsize]
    rfl
  | ok u =>
    have hcheck : (check (checkSize bytes.size limits) : Step (StateM Disk) Unit).run d =
        (.ok u, d) := by
      rw [hsize]
      rfl
    rw [← hsize, run_bind_ok hcheck, hsize]
    rfl

theorem attempt_run {change : Disk → Except Fault Disk} (h : change d = .ok d') :
    Disk.attempt change d = (.ok (), d') := by
  rw [Disk.attempt, h]

theorem makeDirectories_run {path : String} (h : d.makeDirectories path = .ok d') :
    (makeDirectories path : Step (StateM Disk) Unit).run d = (.ok (), d') := by
  have hstore : (Store.makeDirectories path : StateM Disk (Except Fault Unit)) d = (.ok (), d') :=
    attempt_run h
  simp only [makeDirectories, ExceptT.run, ExceptT.mk, bind, StateT.bind, hstore]
  rfl

theorem writeText_run {path text : String} (h : d.write path text = .ok d') :
    (writeText path text : Step (StateM Disk) Unit).run d = (.ok (), d') := by
  have hstore : (Store.write path text : StateM Disk (Except Fault Unit)) d = (.ok (), d') :=
    attempt_run h
  simp only [writeText, ExceptT.run, ExceptT.mk, bind, StateT.bind, hstore]
  rfl

end Steps

def targetName (name : String) : String := stem name ++ ".template.json"

@[simp]
theorem targetNames?_concat (dirs : List String) (name : String) :
    targetNames? (dirs ++ [name]) = some (dirs ++ [targetName name]) := by
  simp [targetNames?, targetName]

/-! ### Files that a step leaves alone -/

/-- Whether it succeeds or not, a step leaves a file as it is, or leaves it out. -/
def Spares {α : Type} (p : List String) (x : Step (StateM Disk) α) : Prop :=
  ∀ d, (x.run d).2.file? p = d.file? p

section Spares

variable {α β : Type} {p : List String}

theorem spares_pure (a : α) : Spares p (pure a : Step (StateM Disk) α) := fun _ => rfl

theorem Spares.bind {x : Step (StateM Disk) α} {f : α → Step (StateM Disk) β}
    (hx : Spares p x) (hf : ∀ a, Spares p (f a)) : Spares p (x >>= f) := by
  intro d
  have hd := hx d
  obtain ⟨result, d', hrun⟩ : ∃ result d', x.run d = (result, d') := ⟨_, _, rfl⟩
  rw [hrun] at hd
  cases result with
  | ok a => rw [run_bind_ok hrun, hf a d', hd]
  | error e => rw [run_bind_error hrun, hd]

theorem spares_readMessage (limits : Limits) (path : String) :
    Spares p (readMessage limits path) := by
  have hread : Spares p (readBytes path : Step (StateM Disk) ByteArray) := fun _ => rfl
  refine hread.bind fun bytes => ?_
  have hcheck : Spares p (check (checkSize bytes.size limits) : Step (StateM Disk) Unit) :=
    fun _ => rfl
  exact hcheck.bind fun _ _ => rfl

theorem spares_attempt {change : Disk → Except Fault Disk}
    (h : ∀ d d', change d = .ok d' → d'.file? p = d.file? p) (d : Disk) :
    (Disk.attempt change d).2.file? p = d.file? p := by
  rw [Disk.attempt]
  cases hchange : change d with
  | ok d' => exact h d d' hchange
  | error e => rfl

theorem spares_makeDirectories (path : String) :
    Spares p (makeDirectories path : Step (StateM Disk) Unit) := by
  refine spares_attempt fun d d' h => ?_
  rw [Disk.makeDirectories] at h
  split at h
  · cases h
  · exact file?_makeAlong h

theorem spares_writeText {path : String} (text : String) (h : lead? [] (parts path) ≠ some p) :
    Spares p (writeText path text : Step (StateM Disk) Unit) := by
  refine spares_attempt fun d d' hwrite => ?_
  obtain ⟨place, hlocate, rfl⟩ := write_eq_ok hwrite
  have hplace : lead? [] (parts path) = some place := lead?_of_locate hlocate
  rw [file?_put, if_neg]
  rintro rfl
  exact h hplace

theorem spares_adaptOne (config : Config) (options : AdaptOptions) (directory out : String)
    {dirs : List String} {name : String}
    (h : lead? [] (parts (join out (dirs ++ [targetName name]))) ≠ some p) :
    Spares p (adaptOne config options directory out (dirs ++ [name])) := by
  refine (spares_readMessage config.limits _).bind fun text => ?_
  simp only [targetNames?_concat]
  refine (spares_makeDirectories _).bind fun _ => ?_
  exact (spares_writeText _ h).bind fun _ => spares_pure _

end Spares

section One

variable (config : Config) (options : AdaptOptions) (directory out : String) {d : Disk}
  {names : List String} {bytes : ByteArray} (hread : d.read (join directory names) = .ok bytes)
include hread

theorem adaptOne_refused {e : Failure} (h : textWithin config.limits bytes = .error e) :
    ((adaptOne config options directory out names : Step (StateM Disk) _).run d).2 = d := by
  have hmessage := readMessage_run config.limits hread
  rw [h] at hmessage
  rw [adaptOne, run_bind_error hmessage]

theorem adaptOne_written {text : String} {target : List String} {made written : Disk}
    (h : textWithin config.limits bytes = .ok text) (htarget : targetNames? names = some target)
    (hmake : d.makeDirectories (join out target.dropLast) = .ok made)
    (hwrite : made.write (join out target) (adapt options text).encode.pretty = .ok written) :
    ((adaptOne config options directory out names : Step (StateM Disk) _).run d).2 = written := by
  have hmessage := readMessage_run config.limits hread
  rw [h] at hmessage
  rw [adaptOne, run_bind_ok hmessage]
  simp only [htarget]
  rw [run_bind_ok (makeDirectories_run hmake), run_bind_ok (writeText_run hwrite)]
  rfl

end One

/-! ### Messages and their files -/

/-- Directories on a disk: names lead to its files, the messages are read from one place, and a path
leads to the place for their templates. -/
structure Setting (d : Disk) (directory out : String) (place base : List String) : Prop where
  names : ∀ f ∈ d.files, ∀ name ∈ f.1, IsFileName name
  directory_ne : directory ≠ ""
  located : d.locate directory = .ok place
  opened : d.file? place = none
  out_ne : out ≠ ""
  inside : out.toList.head? ≠ some '/'
  leads : lead? [] (parts out) = some base

/-- A file below a place that has the name of a message. -/
structure Candidate (d : Disk) (place dirs : List String) (name : String) (bytes : ByteArray) :
    Prop where
  isMessage : isMessageName name = true
  content : d.file? (place ++ (dirs ++ [name])) = some bytes

/-- A message that can be read, with its text. -/
def Message (d : Disk) (limits : Limits) (place dirs : List String) (name text : String) : Prop :=
  ∃ bytes, Candidate d place dirs name bytes ∧ bytes.size ≤ limits.maxInputBytes ∧
    String.fromUTF8? bytes = some text

theorem getLast?_targetName (name : String) : (targetName name).toList.getLast? = some 'n' := by
  simp [targetName, String.toList_append, List.getLast?_append]

theorem isMessageName_targetName (name : String) : isMessageName (targetName name) = false := by
  by_contra h
  obtain ⟨c, hlast, hc⟩ := getLast?_of_isMessageName (by simpa using h)
  rw [getLast?_targetName] at hlast
  obtain rfl := Option.some.inj hlast
  revert hc
  decide

theorem isFileName_targetName {name : String} (h : IsFileName name) :
    IsFileName (targetName name) := by
  have hlast := getLast?_targetName name
  refine ⟨?_, ?_, ?_, fun hslash => ?_⟩
  · intro he
    simp [he] at hlast
  · intro he
    simp [he] at hlast
  · intro he
    simp [he] at hlast
  · rw [targetName, String.toList_append, List.mem_append] at hslash
    rcases hslash with hslash | hslash
    · exact h.2.2.2 (stem_subset name hslash)
    · revert hslash
      decide

/-- The place of the template of a message. -/
def targetPlace (base dirs : List String) (name : String) : List String :=
  base ++ (dirs ++ [targetName name])

theorem targetPlace_inj {base dirs dirs' : List String} {name name' : String}
    (h : targetPlace base dirs name = targetPlace base dirs' name') :
    dirs = dirs' ∧ stem name = stem name' := by
  have hlists := List.append_cancel_left h
  have hnames := List.append_inj' hlists rfl
  refine ⟨hnames.1, ?_⟩
  have hname := (List.cons.inj hnames.2).1
  simpa [targetName] using hname

/-- A directory of messages has lost nothing: each message has a file of its own, by a name in the same
place of the other directory, with its template in it. -/
structure Lossless (d d' : Disk) (limits : Limits) (options : AdaptOptions)
    (place base : List String) (target : List String → String → String) : Prop where
  content : ∀ dirs name text, Message d limits place dirs name text →
    d'.file? (base ++ (dirs ++ [target dirs name])) =
      some (adapt options text).encode.pretty.toUTF8
  own : ∀ dirs dirs' name name' text text', Message d limits place dirs name text →
    Message d limits place dirs' name' text' →
      base ++ (dirs ++ [target dirs name]) = base ++ (dirs' ++ [target dirs' name']) →
        dirs = dirs' ∧ name = name'

/-- Room for the templates: no two messages in a directory have the same stem, no directory is in the
place of a template, and no file and no template in that of a directory which a template needs. -/
structure Room (d : Disk) (limits : Limits) (out : String) (place base : List String) : Prop where
  stems : ∀ dirs name name' text text', Message d limits place dirs name text →
    Message d limits place dirs name' text' → stem name = stem name' → name = name'
  directories : ∀ dirs name text, Message d limits place dirs name text →
    d.isDirectory (targetPlace base dirs name) = false
  files : ∀ dirs name text, Message d limits place dirs name text →
    ∀ p ∈ along [] (parts out ++ dirs), d.file? p = none
  templates : ∀ dirs dirs' name name' text text', Message d limits place dirs name text →
    Message d limits place dirs' name' text' →
      targetPlace base dirs name ∉ along [] (parts out ++ dirs')

theorem Message.text_eq {d : Disk} {limits : Limits} {place dirs : List String}
    {name text text' : String} (hm : Message d limits place dirs name text)
    (hm' : Message d limits place dirs name text') : text = text' := by
  obtain ⟨bytes, hc, -, htext⟩ := hm
  obtain ⟨bytes', hc', -, htext'⟩ := hm'
  have hbytes : bytes = bytes' := Option.some.inj (hc.content.symm.trans hc'.content)
  exact Option.some.inj (htext.symm.trans (hbytes ▸ htext'))

theorem Room.own {d : Disk} {limits : Limits} {out : String} {place base : List String}
    (hr : Room d limits out place base) {dirs dirs' : List String} {name name' text text' : String}
    (hm : Message d limits place dirs name text) (hm' : Message d limits place dirs' name' text')
    (h : targetPlace base dirs name = targetPlace base dirs' name') :
    dirs = dirs' ∧ name = name' := by
  obtain ⟨rfl, hstem⟩ := targetPlace_inj h
  exact ⟨rfl, hr.stems dirs name name' text text' hm hm' hstem⟩

/-! ### Message after message -/

/-- What a run may have changed so far: it has made directories and files for messages alone. -/
structure Progress (d d' : Disk) (limits : Limits) (out : String) (place base : List String) :
    Prop where
  keeps : ∀ p, d.isDirectory p = true → d'.isDirectory p = true
  made : ∀ p, d'.isDirectory p = true → d.isDirectory p = true ∨
    ∃ dirs name text, Message d limits place dirs name text ∧ p ∈ along [] (parts out ++ dirs)
  files : ∀ p, (∀ dirs name text, Message d limits place dirs name text →
    p ≠ targetPlace base dirs name) → d'.file? p = d.file? p

theorem Progress.refl (d : Disk) (limits : Limits) (out : String) (place base : List String) :
    Progress d d limits out place base :=
  ⟨fun _ h => h, fun _ h => .inl h, fun _ _ => rfl⟩

section Run

variable {config : Config} {options : AdaptOptions} {directory out : String} {d d' : Disk}
  {place base : List String} (hs : Setting d directory out place base)
include hs

theorem Setting.isFileName {dirs : List String} {name : String} {bytes : ByteArray}
    (hc : Candidate d place dirs name bytes) : ∀ n ∈ dirs ++ [name], IsFileName n := by
  obtain ⟨f, hf, heq⟩ := exists_of_file? hc.content
  intro n hn
  exact hs.names f hf n (heq ▸ List.mem_append_right place hn)

theorem Setting.isFileName_target {dirs : List String} {name : String} {bytes : ByteArray}
    (hc : Candidate d place dirs name bytes) : ∀ n ∈ dirs ++ [targetName name], IsFileName n := by
  have hnames := hs.isFileName hc
  intro n hn
  rcases List.mem_append.mp hn with hn | hn
  · exact hnames n (List.mem_append_left _ hn)
  · rw [List.mem_singleton.mp hn]
    exact isFileName_targetName (hnames name (by simp))

theorem Progress.read {limits : Limits} (hp : Progress d d' limits out place base)
    {dirs : List String} {name : String} {bytes : ByteArray}
    (hc : Candidate d place dirs name bytes) :
    d'.read (join directory (dirs ++ [name])) = .ok bytes := by
  have hnames := hs.isFileName hc
  have hfile : d'.file? (place ++ (dirs ++ [name])) = some bytes := by
    -- The name of a message is not that of a template, so nothing was written over it.
    rw [hp.files _ fun dirs' name' text' _ he => ?_, hc.content]
    have hlast := congrArg List.getLast? he
    simp only [targetPlace, ← List.append_assoc, List.getLast?_concat, Option.some.injEq] at hlast
    have hmessage := hc.isMessage
    rw [hlast, isMessageName_targetName] at hmessage
    cases hmessage
  obtain ⟨c, hlast, hc'⟩ := getLast?_of_isMessageName hc.isMessage
  refine read_eq ?_ hfile (asksDirectory_join directory dirs hlast ?_ ?_)
  · have hlocated := hs.located
    rw [locate] at hlocated ⊢
    rw [head?_join hs.directory_ne]
    by_cases hroot : (directory.toList.head? == some '/') = true
    · simp [hroot] at hlocated
    · rw [if_neg hroot] at hlocated ⊢
      rw [parts_join directory hnames, follow_append, follow_mono hp.keeps hlocated]
      exact follow_file (fun n hn => (hnames n hn).2.2.1) (exists_of_file? hfile)
  · rintro rfl
    revert hc'
    decide
  · rintro rfl
    revert hc'
    decide

omit hs in
theorem Progress.free {limits : Limits} (hr : Room d limits out place base)
    (hp : Progress d d' limits out place base) {dirs : List String} {name text : String}
    (hm : Message d limits place dirs name text) :
    ∀ p ∈ along [] (parts out ++ dirs), d'.file? p = none := by
  intro p hmem
  rw [hp.files p fun dirs' name' text' hm' he => ?_, hr.files dirs name text hm p hmem]
  exact hr.templates dirs' dirs name' name text' text hm' hm (he ▸ hmem)

theorem Setting.lead {dirs : List String} {name : String} {bytes : ByteArray}
    (hc : Candidate d place dirs name bytes) :
    lead? [] (parts out ++ dirs) = some (base ++ dirs) := by
  have hnames := hs.isFileName hc
  have hdirs : ∀ n ∈ dirs, n ≠ ".." := fun n hn => (hnames n (List.mem_append_left _ hn)).2.2.1
  rw [lead?_append, hs.leads, Option.bind_some, lead?_names hdirs]

theorem Setting.lead_target {dirs : List String} {name : String} {bytes : ByteArray}
    (hc : Candidate d place dirs name bytes) :
    lead? [] (parts (join out (dirs ++ [targetName name]))) = some (targetPlace base dirs name) := by
  have htargets := hs.isFileName_target hc
  rw [parts_join out htargets, lead?_append, hs.leads, Option.bind_some,
    lead?_names fun n hn => (htargets n hn).2.2.1, targetPlace]

end Run

/-- The disk with the directories that a template needs. -/
def prepared (d : Disk) (out : String) (dirs : List String) : Disk :=
  { d with directories := d.directories ++ along [] (parts out ++ dirs) }

/-- The disk with a template for a message. -/
def written (d : Disk) (out : String) (base dirs : List String) (name json : String) : Disk :=
  { prepared d out dirs with files := putFile (targetPlace base dirs name) json.toUTF8 d.files }

theorem targetPlace_ne_nil (base dirs : List String) (name : String) :
    targetPlace base dirs name ≠ [] := by
  simp [targetPlace]

theorem file?_written {d : Disk} {out json : String} {base dirs p : List String} {name : String} :
    (written d out base dirs name json).file? p =
      if p = targetPlace base dirs name then some json.toUTF8 else d.file? p :=
  file?_put (d := prepared d out dirs) (targetPlace base dirs name) json.toUTF8

section Write

variable {limits : Limits} {directory out : String} {d d' : Disk} {place base dirs : List String}
  {name text : String} (hs : Setting d directory out place base) (hr : Room d limits out place base)
  (hp : Progress d d' limits out place base) (hm : Message d limits place dirs name text)

include hr hp hm in
theorem Progress.notDirectory :
    (prepared d' out dirs).isDirectory (targetPlace base dirs name) = false := by
  by_contra h
  rw [Bool.not_eq_false, prepared, isDirectory_made] at h
  rcases h with h | ⟨q, hq, hbelow⟩
  · rcases hp.made _ h with hd | ⟨dirs', name', text', hm', hmem⟩
    · rw [hr.directories dirs name text hm] at hd
      cases hd
    · exact hr.templates dirs dirs' name name' text text' hm hm' hmem
  · rcases mem_along_of_prefix hq hbelow with hnil | hmem
    · exact targetPlace_ne_nil base dirs name (List.prefix_nil.mp hnil)
    · exact hr.templates dirs dirs name name text text hm hm hmem

include hs hr hp hm in
theorem Progress.adaptOne_run {config : Config} (options : AdaptOptions)
    (hlimits : config.limits = limits) :
    ((adaptOne config options directory out (dirs ++ [name]) : Step (StateM Disk) _).run d').2 =
      written d' out base dirs name (adapt options text).encode.pretty := by
  have hfree := hp.free hr hm
  have hnot := hp.notDirectory hr hm
  obtain ⟨bytes, hc, hsize, htext⟩ := hm
  have hlead := hs.lead hc
  have htargets := hs.isFileName_target hc
  have hdirs : ∀ n ∈ dirs, IsFileName n := fun n hn => htargets n (List.mem_append_left _ hn)
  have htarget : targetName name ≠ ".." := (htargets _ (by simp)).2.2.1
  have hroot : (out.toList.head? == some '/') = false := by simpa using hs.inside
  have hmake : d'.makeDirectories (join out (dirs ++ [targetName name]).dropLast) =
      .ok (prepared d' out dirs) := by
    rw [List.dropLast_concat, Disk.makeDirectories, head?_join hs.out_ne, hroot,
      parts_join out hdirs]
    exact makeAlong_eq hlead hfree
  have hlocate : (prepared d' out dirs).locate (join out (dirs ++ [targetName name])) =
      .ok (targetPlace base dirs name) := by
    have hmade : ∀ p ∈ along [] (parts out ++ dirs), (prepared d' out dirs).isDirectory p = true :=
      fun p hmem => (isDirectory_made _).mpr (.inr ⟨p, hmem, List.prefix_refl p⟩)
    obtain ⟨hfollow, hdir⟩ := follow_eq hlead (isDirectory_iff.mpr (.inl rfl)) hmade
    rw [locate, head?_join hs.out_ne, hroot, parts_join out htargets, ← List.append_assoc,
      follow_append, hfollow]
    simp [Except.bind, follow, hdir, htarget, targetPlace]
  have hasks : asksDirectory (join out (dirs ++ [targetName name])) = false :=
    asksDirectory_join out dirs (getLast?_targetName name) (by decide) (by decide)
  exact adaptOne_written config options directory out (hp.read hs hc)
    (textWithin_eq_ok.mpr ⟨hlimits ▸ hsize, htext⟩) (targetNames?_concat dirs name) hmake
    (write_eq hlocate hnot hasks)

include hs hp hm in
theorem Progress.write (json : String) :
    Progress d (written d' out base dirs name json) limits out place base where
  keeps p h := by
    have hmade : (prepared d' out dirs).isDirectory p = true :=
      (isDirectory_made _).mpr (.inl (hp.keeps p h))
    exact (isDirectory_put _ _).mpr (.inl hmade)
  made p h := by
    -- Whatever is above a place that was gone through was gone through too.
    have habove : ∀ q ∈ along [] (parts out ++ dirs), p <+: q →
        d.isDirectory p = true ∨ ∃ dirs name text, Message d limits place dirs name text ∧
          p ∈ along [] (parts out ++ dirs) := by
      intro q hq hbelow
      rcases mem_along_of_prefix hq hbelow with hnil | hmem
      · exact .inl (isDirectory_iff.mpr (.inl (List.prefix_nil.mp hnil)))
      · exact .inr ⟨dirs, name, text, hm, hmem⟩
    rcases (isDirectory_put _ _).mp h with h | ⟨hbelow, hne⟩
    · rcases (isDirectory_made _).mp h with h | ⟨q, hq, hbelow⟩
      · exact hp.made p h
      · exact habove q hq hbelow
    · obtain ⟨bytes, hc, -, -⟩ := id hm
      rw [targetPlace, ← List.append_assoc, List.prefix_concat_iff] at hbelow
      have hbase : p <+: base ++ dirs := hbelow.resolve_left fun he =>
        hne (by rw [he, targetPlace, List.append_assoc])
      rcases lead?_mem (hs.lead hc) with hnil | hmem
      · rw [List.prefix_nil] at hnil
        rw [hnil, List.prefix_nil] at hbase
        exact .inl (isDirectory_iff.mpr (.inl hbase))
      · exact habove _ hmem hbase
  files p h := by
    rw [file?_written, if_neg (h dirs name text hm), hp.files p h]

end Write

/-! ### All messages, in any order -/

/-- The disk after messages are turned into templates, one after the other. -/
def afterAll (config : Config) (options : AdaptOptions) (directory out : String) (d : Disk)
    (order : List (List String)) : Disk :=
  order.foldl
    (fun d names => ((adaptOne config options directory out names : Step (StateM Disk) _).run d).2) d

theorem runAdaptAll_run (config : Config) (options : AdaptOptions) (directory out : String)
    (d : Disk) : ((runAdaptAll config options directory out : StateM Disk Shown) d).2 =
      afterAll config options directory out d ((messagesBelow directory : StateM Disk _) d).1 := by
  have hmapM : ∀ (sources : List (List String)) (d : Disk),
      ((sources.mapM fun names => do
        return (names, ← (adaptOne config options directory out names).run) :
          StateM Disk _) d).2 = afterAll config options directory out d sources := by
    intro sources
    induction sources with
    | nil => intro d; rfl
    | cons names sources ih =>
      intro d
      rw [List.mapM_cons]
      exact ih _
  exact hmapM _ d

theorem mem_messagesBelow {directory out : String} {d : Disk} {place base names : List String}
    (hs : Setting d directory out place base) :
    names ∈ ((messagesBelow directory : StateM Disk _) d).1 ↔
      ∃ dirs name bytes, names = dirs ++ [name] ∧ Candidate d place dirs name bytes := by
  have hbelow : d.filesBelow directory =
      (d.files.filter fun f => place.isPrefixOf f.1).map fun f => f.1.drop place.length := by
    simp only [filesBelow, hs.located, hs.opened]
    rfl
  have hmessages : ((messagesBelow directory : StateM Disk _) d).1 =
      ((d.filesBelow directory).filter fun names =>
        ((parts directory ++ names).getLast?).any isMessageName).mergeSort pathLe := rfl
  rw [hmessages, List.mem_mergeSort, List.mem_filter, hbelow, List.mem_map]
  constructor
  · rintro ⟨⟨f, hf, rfl⟩, hmessage⟩
    obtain ⟨hf, hbelow⟩ := List.mem_filter.mp hf
    obtain ⟨names, heq⟩ := List.isPrefixOf_iff_prefix.mp hbelow
    obtain ⟨bytes, hfile⟩ := exists_file?_of_mem hf
    have hne : names ≠ [] := by
      rintro rfl
      rw [← heq, List.append_nil, hs.opened] at hfile
      cases hfile
    rw [← heq, List.drop_left] at hmessage ⊢
    obtain ⟨name, hlast⟩ := List.getLast?_isSome.mpr hne |> Option.isSome_iff_exists.mp
    obtain ⟨dirs, rfl⟩ := List.getLast?_eq_some_iff.mp hlast
    refine ⟨dirs, name, bytes, rfl, ?_, heq ▸ hfile⟩
    rwa [← List.append_assoc, List.getLast?_concat, Option.any_some] at hmessage
  · rintro ⟨dirs, name, bytes, rfl, hc⟩
    obtain ⟨f, hf, heq⟩ := exists_of_file? hc.content
    refine ⟨⟨f, List.mem_filter.mpr ⟨hf, ?_⟩, ?_⟩, ?_⟩
    · rw [heq]
      exact List.isPrefixOf_iff_prefix.mpr (List.prefix_append _ _)
    · rw [heq, List.drop_left]
    · rw [← List.append_assoc, List.getLast?_concat]
      exact hc.isMessage

section Run

variable {config : Config} {directory out : String} {d d' : Disk} {place base : List String}
  (options : AdaptOptions) (hs : Setting d directory out place base)
  (hr : Room d config.limits out place base)
  (hp : Progress d d' config.limits out place base)
include hs hr hp

/-- A step writes the right template for its message, or leaves everything as it is. -/
theorem Progress.step {dirs : List String} {name : String} {bytes : ByteArray}
    (hc : Candidate d place dirs name bytes) :
    (∃ text, Message d config.limits place dirs name text ∧
      ((adaptOne config options directory out (dirs ++ [name]) : Step (StateM Disk) _).run d').2 =
        written d' out base dirs name (adapt options text).encode.pretty) ∨
    ((∀ text, ¬ Message d config.limits place dirs name text) ∧
      ((adaptOne config options directory out (dirs ++ [name]) : Step (StateM Disk) _).run d').2 =
        d') := by
  cases hwithin : textWithin config.limits bytes with
  | ok text =>
    obtain ⟨hsize, htext⟩ := textWithin_eq_ok.mp hwithin
    have hm : Message d config.limits place dirs name text := ⟨bytes, hc, hsize, htext⟩
    exact .inl ⟨text, hm, hp.adaptOne_run hs hr hm options rfl⟩
  | error e =>
    refine .inr ⟨?_, adaptOne_refused config options directory out (hp.read hs hc) hwithin⟩
    rintro text ⟨bytes', hc', hsize, htext⟩
    have hbytes : bytes' = bytes := Option.some.inj (hc'.content.symm.trans hc.content)
    rw [textWithin_eq_ok.mpr ⟨hbytes ▸ hsize, hbytes ▸ htext⟩] at hwithin
    cases hwithin

theorem Progress.run {order : List (List String)}
    (horder : ∀ names ∈ order, ∃ dirs name bytes, names = dirs ++ [name] ∧
      Candidate d place dirs name bytes) :
    Progress d (afterAll config options directory out d' order) config.limits out place base ∧
      ∀ dirs name text, Message d config.limits place dirs name text →
        dirs ++ [name] ∈ order ∨
          d'.file? (targetPlace base dirs name) = some (adapt options text).encode.pretty.toUTF8 →
        (afterAll config options directory out d' order).file? (targetPlace base dirs name) =
          some (adapt options text).encode.pretty.toUTF8 := by
  induction order generalizing d' with
  | nil => exact ⟨hp, fun dirs name text hm h => h.resolve_left (List.not_mem_nil)⟩
  | cons names order ih =>
    obtain ⟨dirs, name, bytes, rfl, hc⟩ := horder names List.mem_cons_self
    have hrest := fun names hmem => horder names (List.mem_cons_of_mem _ hmem)
    rw [afterAll, List.foldl_cons, ← afterAll]
    rcases hp.step options hs hr hc with ⟨text, hm, heq⟩ | ⟨hnone, heq⟩
    · rw [heq]
      obtain ⟨hprogress, hfiles⟩ := ih (hp.write hs hm _) hrest
      refine ⟨hprogress, fun dirs' name' text' hm' h => hfiles dirs' name' text' hm' ?_⟩
      rw [file?_written]
      -- A template is written over only by that of its own message.
      by_cases hplace : targetPlace base dirs' name' = targetPlace base dirs name
      · obtain ⟨rfl, rfl⟩ := hr.own hm' hm hplace
        right
        rw [if_pos rfl, hm.text_eq hm']
      · rw [if_neg hplace]
        refine h.imp_left fun hmem => (List.mem_cons.mp hmem).resolve_left fun he => hplace ?_
        obtain ⟨rfl, hlast⟩ := List.append_inj' he rfl
        rw [(List.cons.inj hlast).1]
    · rw [heq]
      obtain ⟨hprogress, hfiles⟩ := ih hp hrest
      refine ⟨hprogress, fun dirs' name' text' hm' h => hfiles dirs' name' text' hm' ?_⟩
      refine h.imp_left fun hmem => (List.mem_cons.mp hmem).resolve_left fun he => ?_
      obtain ⟨rfl, hlast⟩ := List.append_inj' he rfl
      obtain ⟨rfl, -⟩ := List.cons.inj hlast
      exact hnone text' hm'

end Run

/-- A run leaves every file alone that is in no place of a template. -/
theorem file?_afterAll {config : Config} (options : AdaptOptions) {directory out : String}
    {d : Disk} {place base p : List String} (hs : Setting d directory out place base)
    {order : List (List String)}
    (horder : ∀ names ∈ order, ∃ dirs name bytes, names = dirs ++ [name] ∧
      Candidate d place dirs name bytes ∧ targetPlace base dirs name ≠ p) :
    (afterAll config options directory out d order).file? p = d.file? p := by
  have hrun : ∀ d', (afterAll config options directory out d' order).file? p = d'.file? p := by
    induction order with
    | nil => intro d'; rfl
    | cons names order ih =>
      intro d'
      obtain ⟨dirs, name, bytes, rfl, hc, hne⟩ := horder names List.mem_cons_self
      have hrest := ih fun names hmem => horder names (List.mem_cons_of_mem _ hmem)
      rw [afterAll, List.foldl_cons, ← afterAll, hrest]
      refine spares_adaptOne config options directory out (fun hlead => hne ?_) d'
      rw [hs.lead_target hc] at hlead
      exact Option.some.inj hlead
  exact hrun d

/-- Where there is room for the templates, no message is lost in any order, the program's own among
them. -/
theorem lossless_of_room {config : Config} {options : AdaptOptions} {directory out : String}
    {d : Disk} {place base : List String} (hs : Setting d directory out place base)
    (hr : Room d config.limits out place base) :
    Lossless d ((runAdaptAll config options directory out : StateM Disk Shown) d).2 config.limits
        options place base (fun _ name => targetName name) ∧
      ∀ order, order.Perm ((messagesBelow directory : StateM Disk _) d).1 →
        Lossless d (afterAll config options directory out d order) config.limits options place base
          fun _ name => targetName name := by
  have hall : ∀ order, order.Perm ((messagesBelow directory : StateM Disk _) d).1 →
      Lossless d (afterAll config options directory out d order) config.limits options place base
        fun _ name => targetName name := by
    intro order hperm
    have horder : ∀ names ∈ order, ∃ dirs name bytes, names = dirs ++ [name] ∧
        Candidate d place dirs name bytes :=
      fun names hmem => (mem_messagesBelow hs).mp (hperm.mem_iff.mp hmem)
    obtain ⟨-, hfiles⟩ := (Progress.refl d config.limits out place base).run options hs hr horder
    refine ⟨fun dirs name text hm => hfiles dirs name text hm (.inl ?_), fun _ _ _ _ _ _ => hr.own⟩
    obtain ⟨bytes, hc, -, -⟩ := hm
    exact hperm.mem_iff.mpr ((mem_messagesBelow hs).mpr ⟨dirs, name, bytes, rfl, hc⟩)
  refine ⟨?_, hall⟩
  rw [runAdaptAll_run]
  exact hall _ (List.Perm.refl _)

/-! ### Two messages in one directory -/

/-- A directory with a message and one more file, of the same content. -/
def letters (name : String) : Disk where
  files := [(["in", "a.html"], "<p>One".toUTF8), (["in", name], "<p>One".toUTF8)]
  directories := []

theorem setting_letters {name : String} (h : IsFileName name) :
    Setting (letters name) "in" "out" ["in"] ["out"] where
  names := by
    have hin : IsFileName "in" := by decide
    have hfirst : IsFileName "a.html" := by decide
    simp [letters, hin, hfirst, h]
  directory_ne := by decide
  located := by
    have hparts : parts "in" = ["in"] := by decide
    have hroot : (letters name).isDirectory [] = true := rfl
    simp [locate, hparts, follow, hroot]
  opened := by simp [letters, file?]
  out_ne := by decide
  inside := by decide
  leads := by decide

theorem candidate_letters {name name' : String} {dirs : List String} {bytes : ByteArray}
    (hc : Candidate (letters name) ["in"] dirs name' bytes) :
    dirs = [] ∧ (name' = "a.html" ∨ name' = name) := by
  obtain ⟨f, hf, heq⟩ := exists_of_file? hc.content
  have hcases : f.1 = ["in", "a.html"] ∨ f.1 = ["in", name] := by
    simp only [letters, List.mem_cons, List.not_mem_nil, or_false] at hf
    rcases hf with rfl | rfl
    · exact .inl rfl
    · exact .inr rfl
  have hnames : ∀ n, ["in"] ++ (dirs ++ [name']) = ["in", n] → dirs = [] ∧ name' = n := by
    intro n hn
    have hlist : dirs ++ [name'] = [] ++ [n] := @List.append_cancel_left _ ["in"] _ _ hn
    obtain ⟨hdirs, hlast⟩ := List.append_inj' hlist rfl
    exact ⟨hdirs, (List.cons.inj hlast).1⟩
  rcases hcases with hf | hf
  · exact (hnames _ (heq.symm.trans hf)).imp_right .inl
  · exact (hnames _ (heq.symm.trans hf)).imp_right .inr

theorem message_letters {name name' : String} (hmessage : isMessageName name' = true)
    (h : name' = "a.html" ∨ name' = name) :
    Message (letters name) Limits.standard ["in"] [] name' "<p>One" := by
  have hsize : "<p>One".toUTF8.size ≤ Limits.standard.maxInputBytes := by decide
  have htext : String.fromUTF8? "<p>One".toUTF8 = some "<p>One" := by decide +kernel
  refine ⟨"<p>One".toUTF8, ⟨hmessage, ?_⟩, hsize, htext⟩
  rcases h with rfl | rfl
  · simp [letters, file?]
  · by_cases hname : name' = "a.html"
    · simp [letters, file?, hname]
    · simp [letters, file?, Ne.symm hname]

theorem room_letters : Room (letters "b.HTM") Config.standard.limits "out" ["in"] ["out"] where
  stems := by
    rintro dirs name name' text text' ⟨bytes, hc, -⟩ ⟨bytes', hc', -⟩ hstem
    rcases candidate_letters hc with ⟨rfl, rfl | rfl⟩ <;>
      rcases candidate_letters hc' with ⟨-, rfl | rfl⟩
    · rfl
    · exact absurd hstem (by decide)
    · exact absurd hstem (by decide)
    · rfl
  directories := by
    rintro dirs name text ⟨bytes, hc, -⟩
    rcases candidate_letters hc with ⟨rfl, rfl | rfl⟩
    · decide
    · decide
  files := by
    rintro dirs name text ⟨bytes, hc, -⟩ p hp
    obtain ⟨rfl, -⟩ := candidate_letters hc
    have hparts : along [] (parts "out" ++ []) = [["out"]] := by decide
    rw [hparts, List.mem_singleton] at hp
    rw [hp]
    simp [letters, file?]
  templates := by
    rintro dirs dirs' name name' text text' ⟨bytes, hc, -⟩ ⟨bytes', hc', -⟩ hp
    obtain ⟨rfl, -⟩ := candidate_letters hc
    obtain ⟨rfl, -⟩ := candidate_letters hc'
    have hparts : along [] (parts "out" ++ []) = [["out"]] := by decide
    rw [hparts, List.mem_singleton] at hp
    simp [targetPlace] at hp

theorem lossless_letters :
    Message (letters "b.HTM") Limits.standard ["in"] [] "b.HTM" "<p>One" ∧
      Lossless (letters "b.HTM")
        ((runAdaptAll .standard .standard "in" "out" : StateM Disk Shown) (letters "b.HTM")).2
        Limits.standard .standard ["in"] ["out"] fun _ name => targetName name :=
  ⟨message_letters (by decide) (.inr rfl),
    (lossless_of_room (setting_letters (by decide)) room_letters).1⟩

/-- Names with one stem take one file. -/
theorem not_lossless_letters :
    ¬ ∃ target, Lossless (letters "a.htm")
      ((runAdaptAll .standard .standard "in" "out" : StateM Disk Shown) (letters "a.htm")).2
      Limits.standard .standard ["in"] ["out"] target := by
  have hs : Setting (letters "a.htm") "in" "out" ["in"] ["out"] := setting_letters (by decide)
  have hfirst : Message (letters "a.htm") Limits.standard ["in"] [] "a.html" "<p>One" :=
    message_letters (by decide) (.inl rfl)
  have hsecond : Message (letters "a.htm") Limits.standard ["in"] [] "a.htm" "<p>One" :=
    message_letters (by decide) (.inr rfl)
  rintro ⟨target, content, own⟩
  have htarget : ∀ name, Message (letters "a.htm") Limits.standard ["in"] [] name "<p>One" →
      target [] name = "a.template.json" := by
    intro name hm
    by_contra hne
    have hfile := content [] name "<p>One" hm
    rw [runAdaptAll_run, file?_afterAll .standard hs] at hfile
    · simp [letters, file?] at hfile
    · intro names hmem
      obtain ⟨dirs, name', bytes, rfl, hc⟩ := (mem_messagesBelow hs).mp hmem
      refine ⟨dirs, name', bytes, rfl, hc, fun he => hne ?_⟩
      have hstem : dirs = [] ∧ targetName name' = "a.template.json" := by
        rcases candidate_letters hc with ⟨hdirs, rfl | rfl⟩
        · exact ⟨hdirs, by decide⟩
        · exact ⟨hdirs, by decide⟩
      rw [targetPlace, hstem.1, hstem.2] at he
      simpa using he.symm
  have hsame := own [] [] "a.html" "a.htm" _ _ hfirst hsecond (by
    rw [htarget _ hfirst, htarget _ hsecond])
  exact absurd hsame.2 (by decide)

end EmailTemplate.Command

import TagStamp.Proofs.Workspace.Ends

namespace TagStamp

/-- The workspace with another transcript. -/
def Workspace.recalling (w : Workspace) (transcript : List Output) : Workspace :=
  { w with transcript }

/-- Nothing was said but entries of the given level. -/
def Workspace.Noted (level : Log.Level) (w w' : Workspace) : Prop :=
  ∃ entries : List Log.Entry, w'.transcript = w.transcript ++ entries.map .log ∧ ∀ entry ∈ entries, entry.level = level

theorem Workspace.Noted.of_eq {level : Log.Level} {w w' : Workspace} (h : w'.transcript = w.transcript) :
    w.Noted level w' :=
  ⟨[], by simp [h], by simp⟩

theorem Workspace.Noted.trans {level : Log.Level} {w w' w'' : Workspace} (h : w.Noted level w')
    (h' : w'.Noted level w'') : w.Noted level w'' := by
  obtain ⟨entries, hentries, hlevel⟩ := h
  obtain ⟨entries', hentries', hlevel'⟩ := h'
  refine ⟨entries ++ entries', by simp [hentries', hentries], ?_⟩
  rw [List.forall_mem_append]
  exact ⟨hlevel, hlevel'⟩

namespace Action

variable {α β : Type} {w : Workspace}

/-- The action neither says anything nor depends on what was said. -/
def Silent (a : Action α) : Prop :=
  ∀ (w : Workspace) (transcript : List Output) (done : α → Workspace → Prop) (failed : Failure → Workspace → Prop),
    a.Ends (w.recalling transcript) done failed ↔
      a.Ends w (fun x w' => done x (w'.recalling transcript))
        fun failure w' => failed failure (w'.recalling transcript)

theorem Silent.ends_transcript {a : Action α} (h : Silent a) (w : Workspace) :
    a.Ends w (fun _ w' => w'.transcript = w.transcript) fun _ w' => w'.transcript = w.transcript :=
  (h w w.transcript _ _).2 (.of_forall (fun _ _ => rfl) fun _ _ => rfl)

theorem silent_pure (x : α) : Silent (pure x : Action α) :=
  fun _ _ _ _ => Iff.rfl

theorem silent_throw (failure : Failure) : Silent (throw failure : Action α) :=
  fun _ _ _ _ => Iff.rfl

theorem silent_setTree (tree : FileTree) : Silent (setTree tree) :=
  fun _ _ _ _ => Iff.rfl

theorem silent_look (aim : Aim) (path : String) : Silent (look aim path) :=
  fun _ _ _ _ => Iff.rfl

theorem Silent.bind {a : Action α} {f : α → Action β} (ha : Silent a) (hf : ∀ x, Silent (f x)) :
    Silent (a >>= f) := by
  intro w transcript done failed
  rw [ends_bind, ha, ends_bind]
  simp only [hf _ _ transcript]

theorem Silent.tryCatch {a : Action α} {handler : Failure → Action α} (ha : Silent a)
    (hhandler : ∀ failure, Silent (handler failure)) : Silent (tryCatch a handler) := by
  intro w transcript done failed
  rw [ends_tryCatch, ha, ends_tryCatch]
  simp only [hhandler _ _ transcript]

/-- Of the workspace, an action may use all but the transcript. -/
theorem Silent.get_bind {f : Workspace → Action α} (hsame : ∀ w transcript, f (w.recalling transcript) = f w)
    (hf : ∀ w, Silent (f w)) : Silent (get >>= f) := by
  intro w transcript done failed
  rw [ends_bind, ends_get, ends_bind, ends_get, hsame]
  exact hf w w transcript done failed

theorem Silent.onDisk {a : Action α} {handler : DiskError → Action α} (ha : Silent a)
    (hhandler : ∀ error, Silent (handler error)) : Silent (onDisk a handler) := by
  refine ha.tryCatch fun failure => ?_
  cases failure with
  | disk error => exact hhandler error
  | _ => exact silent_throw _

theorem Silent.mapM {xs : List β} {f : β → Action α} (hf : ∀ x, Silent (f x)) : Silent (xs.mapM f) := by
  induction xs with
  | nil => exact silent_pure []
  | cons x rest ih =>
    rw [List.mapM_cons]
    exact (hf x).bind fun y => ih.bind fun ys => silent_pure (y :: ys)

theorem Silent.forM {xs : List β} {f : β → Action Unit} (hf : ∀ x, Silent (f x)) : Silent (xs.forM f) := by
  induction xs with
  | nil => exact silent_pure ()
  | cons x rest ih => exact (hf x).bind fun _ => ih

section Disk

theorem silent_refuse (error : FileError) (path : String) : Silent (refuse error path : Action α) :=
  silent_throw _

theorem silent_ofExcept (result : Except Failure α) : Silent (ofExcept result) := by
  cases result with
  | ok x => exact silent_pure x
  | error failure => exact silent_throw failure

theorem silent_checkPath (path : String) : Silent (checkPath path) := by
  unfold checkPath
  split
  · exact silent_throw _
  · exact silent_pure ()

theorem silent_probe (path : String) : Silent (probe path) := by
  unfold probe
  split
  · exact silent_pure none
  refine (silent_look .target path).bind fun walk => ?_
  split
  · exact silent_pure _
  · exact silent_pure none
  · exact silent_refuse _ _
  · exact silent_pure none

theorem silent_readFile (path : String) : Silent (readFile path) := by
  refine (silent_checkPath path).bind fun _ => (silent_look .target path).bind fun walk => ?_
  split
  · exact silent_pure _
  all_goals exact silent_refuse _ _

theorem silent_writeFile (path : String) (content : List UInt8) : Silent (writeFile path content) := by
  refine (silent_checkPath path).bind fun _ => .get_bind (fun _ _ => rfl) fun w =>
    (silent_look .writing path).bind fun walk => ?_
  split
  · exact silent_setTree _
  · exact silent_refuse _ _
  · exact silent_refuse _ _
  · exact silent_setTree _
  · exact silent_refuse _ _

theorem silent_interrupt (cause : Interruption) (path : String) : Silent (interrupt cause path) := by
  unfold interrupt
  split
  · exact (silent_writeFile path _).bind fun _ => silent_throw _
  · exact silent_throw _

theorem silent_makeDirectory (path : String) : Silent (makeDirectory path) := by
  refine (silent_checkPath path).bind fun _ => .get_bind (fun _ _ => rfl) fun w => ?_
  dsimp only
  split
  · exact silent_throw _
  refine (silent_look .entry path).bind fun walk => ?_
  split
  · exact silent_refuse _ _
  · exact silent_setTree _
  · exact silent_refuse _ _

theorem silent_unlessDirectory (path : String) (error : DiskError) : Silent (unlessDirectory path error) := by
  refine ((silent_probe path).bind fun found => silent_pure _).bind fun there => ?_
  split
  · exact silent_pure ()
  · exact silent_throw _

/-- One attempt to make a directory. -/
theorem silent_attempt (path : String) {missing : DiskError → Action Unit}
    (hmissing : ∀ error, Silent (missing error)) :
    Silent (onDisk (makeDirectory path) fun error =>
      if error.isNoEntry then missing error else unlessDirectory path error) := by
  refine (silent_makeDirectory path).onDisk fun error => ?_
  split
  · exact hmissing error
  · exact silent_unlessDirectory path error

theorem silent_makeDirectories (path : Path) : Silent (makeDirectories path) := by
  unfold makeDirectories
  generalize path.names.length = above
  induction above generalizing path with
  | zero => exact silent_attempt path.text fun error => silent_throw _
  | succ above ih =>
    exact silent_attempt path.text fun error => (ih path.parent).bind fun _ =>
      silent_attempt path.text fun error => silent_throw _

theorem silent_sameEntry (a b : String) : Silent (sameEntry a b) := by
  refine (silent_look .target a).bind fun here => (silent_look .target b).bind fun there => ?_
  split
  · exact silent_pure _
  · exact silent_pure false

theorem silent_writeCopy (path : String) (content : List UInt8) : Silent (writeCopy path content) := by
  refine (silent_writeFile path content).onDisk fun error => (silent_look .target path).bind fun walk => ?_
  split
  all_goals exact silent_throw _

theorem silent_copyFile (source target : Path) : Silent (copyFile source target) := by
  refine .get_bind (fun _ _ => rfl) fun w => ?_
  dsimp only
  split
  · exact silent_throw _
  refine (silent_checkPath _).bind fun _ => (silent_checkPath _).bind fun _ =>
    (silent_sameEntry _ _).bind fun same => ?_
  split
  · exact silent_throw _
  refine (silent_readFile _).bind fun content => ?_
  split
  · exact (silent_interrupt _ _).bind fun _ => silent_writeCopy _ _
  · exact silent_writeCopy _ _

theorem silent_workingDirectory : Silent workingDirectory := by
  refine .get_bind (fun _ _ => rfl) fun w => ?_
  split
  · exact silent_throw _
  · exact silent_pure _

/-- The last step of a search: the path that was found is looked up once more. -/
def settle (resolved : Path) : Action Path := do
  checkPath resolved.text
  match ← look .target resolved.text with
  | .refused .tooManyLinks => throw (.linkLoop resolved.text)
  | _ => return resolved

theorem resolve_eq (path : Path) :
    resolve path = get >>= fun w =>
      match w.tree.search w.directory path with
      | .nullByte => throw .nullByte
      | .reached meant | .looped meant =>
        (if meant.anchor = .relative then workingDirectory else pure []) >>= fun base =>
          settle (meant.normal base) := by
  unfold resolve settle
  refine bind_congr fun w => ?_
  cases w.tree.search w.directory path with
  | nullByte => rfl
  | reached meant => dsimp only; split <;> rfl
  | looped meant => dsimp only; split <;> rfl

theorem silent_settle (resolved : Path) : Silent (settle resolved) := by
  refine (silent_checkPath _).bind fun _ => (silent_look _ _).bind fun walk => ?_
  split
  · exact silent_throw _
  · exact silent_pure _

theorem silent_resolve (path : Path) : Silent (resolve path) := by
  rw [resolve_eq]
  refine .get_bind (fun _ _ => rfl) fun w => ?_
  split
  · exact silent_throw _
  all_goals
    refine Silent.bind ?_ fun base => silent_settle _
    split
    · exact silent_workingDirectory
    · exact silent_pure []

theorem ends_settle (resolved : Path) :
    (settle resolved).Ends w (fun resolved w' => '\x00' ∉ resolved.text.toList ∧ w' = w) fun _ w' => w' = w := by
  simp only [settle, ends_bind, ends_checkPath, ends_look]
  split
  · trivial
  next hnul =>
  split
  · exact ends_throw.2 rfl
  · exact ends_pure.2 ⟨by simpa using hnul, rfl⟩

/-- A path that is found can be looked up, and searching for it changes nothing. -/
theorem ends_resolve_same (path : Path) :
    (resolve path).Ends w (fun resolved w' => '\x00' ∉ resolved.text.toList ∧ w' = w) fun _ w' => w' = w := by
  rw [resolve_eq, ends_bind, ends_get]
  split
  · exact ends_throw.2 rfl
  all_goals
    rw [ends_bind]
    split
    · rw [ends_workingDirectory]
      split
      · rfl
      · exact ends_settle _
    · exact ends_settle _

end Disk

/-- What an action comes to, apart from what is said. -/
def effect (a : Action α) (w : Workspace) : Except Failure α × Workspace :=
  match a.run w with
  | .ok x w' => (.ok x, w'.recalling [])
  | .error failure w' => (.error failure, w'.recalling [])

/-- What the action comes to does not depend on what was said before. -/
def Discreet (a : Action α) : Prop :=
  ∀ (w : Workspace) (transcript : List Output), a.effect (w.recalling transcript) = a.effect w

theorem effect_of_ends {a : Action α} {outcome : Except Failure α × Workspace}
    (h : a.Ends w (fun x w' => outcome = (.ok x, w'.recalling []))
      fun failure w' => outcome = (.error failure, w'.recalling [])) : a.effect w = outcome := by
  unfold effect
  cases hrun : a.run w with
  | ok x w' => exact (h.ok hrun).symm
  | error failure w' => exact (h.error hrun).symm

theorem ends_effect (a : Action α) (w : Workspace) :
    a.Ends w (fun x w' => a.effect w = (.ok x, w'.recalling []))
      fun failure w' => a.effect w = (.error failure, w'.recalling []) := by
  unfold Ends effect
  cases a.run w <;> rfl

theorem exists_run_eq_ok_iff {a : Action α} {x : α} : (∃ w', a.run w = .ok x w') ↔ (a.effect w).1 = .ok x := by
  unfold effect
  cases a.run w <;> simp

/-- Whether the action succeeds does not depend on what was said before. -/
theorem Discreet.exists_run_eq_ok {a : Action α} (h : Discreet a) {x : α} (transcript : List Output) :
    (∃ w', a.run (w.recalling transcript) = .ok x w') ↔ ∃ w', a.run w = .ok x w' := by
  rw [exists_run_eq_ok_iff, exists_run_eq_ok_iff, h]

theorem Silent.discreet {a : Action α} (h : Silent a) : Discreet a := by
  intro w transcript
  refine effect_of_ends ((h w transcript _ _).2 ?_)
  exact ends_effect a w

theorem discreet_pure (x : α) : Discreet (pure x : Action α) :=
  (silent_pure x).discreet

theorem discreet_log (level : Log.Level) (message : CodeString) : Discreet (log level message) :=
  fun _ _ => rfl

theorem discreet_say (output : Output) : Discreet (say output) :=
  fun _ _ => rfl

/-- What comes second goes by what the first has done, not by what it has said. -/
theorem effect_bind {a : Action α} {f : α → Action β} (hf : ∀ x, Discreet (f x)) (w : Workspace) :
    (a >>= f).effect w =
      match a.effect w with
      | (.ok x, w') => (f x).effect w'
      | (.error failure, w') => (.error failure, w') := by
  refine effect_of_ends (ends_bind.2 ((ends_effect a w).imp (fun x w' hx => ?_) fun failure w' hfailure => ?_))
  · rw [hx]
    dsimp only
    rw [hf]
    exact ends_effect (f x) w'
  · rw [hfailure]

theorem Discreet.bind {a : Action α} {f : α → Action β} (ha : Discreet a) (hf : ∀ x, Discreet (f x)) :
    Discreet (a >>= f) := by
  intro w transcript
  rw [effect_bind hf, effect_bind hf, ha]

/-- The action comes to the same whatever was said before, and says nothing but entries of the given level. -/
structure Notes (level : Log.Level) (a : Action α) : Prop where
  discreet : Discreet a
  noted : ∀ w, a.Ends w (fun _ w' => w.Noted level w') fun _ w' => w.Noted level w'

theorem Silent.notes {a : Action α} (h : Silent a) (level : Log.Level) : Notes level a where
  discreet := h.discreet
  noted w := (h.ends_transcript w).imp (fun _ _ hsame => .of_eq hsame) fun _ _ hsame => .of_eq hsame

theorem notes_log (level : Log.Level) (message : CodeString) : Notes level (log level message) where
  discreet := discreet_log level message
  noted w := ends_log.2 ⟨[⟨level, message⟩], rfl, by simp⟩

theorem Notes.bind {level : Log.Level} {a : Action α} {f : α → Action β} (ha : Notes level a)
    (hf : ∀ x, Notes level (f x)) : Notes level (a >>= f) where
  discreet := ha.discreet.bind fun x => (hf x).discreet
  noted w := ends_bind.2 ((ha.noted w).imp
    (fun x w' hfirst => ((hf x).noted w').imp (fun _ _ => hfirst.trans) fun _ _ => hfirst.trans) fun _ _ h => h)

end Action

end TagStamp

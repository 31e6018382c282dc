import TreeMerge.Command.Step

/-!
# Silent steps

A silent step prints nothing and leaves all files as they are, whether it fails or not, and only the
files matter to it. A command that goes on with silent steps has no effect however it ends.

* `Step.after_bind`, `Step.after_write` : running steps one after the other, and writing;
* `Step.Silent`, `Step.Silent.bind` : silent steps, and two of them in turn;
* `Step.silent_file`, `Step.silent_config`, `Step.silent_ofMerge` and others : what is silent;
* `Step.result_bind` : the result of silent steps in turn.
-/

namespace TreeMerge.Step

variable {α β : Type}

/-! ## Running steps -/

theorem after_pure (a : α) (p : Progress) :
    (pure a : Step α).after p = { p with result := .ok a } := rfl

theorem after_throw (e : CommandError) (p : Progress) :
    (throw e : Step α).after p = { p with result := .error e } := rfl

/-- Only a result lets a command go on. -/
theorem after_bind (x : Step α) (f : α → Step β) (p : Progress) :
    (x >>= f).after p =
      match (x.after p).result with
      | .ok a => (f a).after (x.after p).toProgress
      | .error e => { (x.after p).toProgress with result := .error e } := by
  unfold after
  rw [EStateM.run_bind]
  cases x.run p <;> rfl

theorem after_bind_ok {x : Step α} {p : Progress} {a : α} (h : (x.after p).result = .ok a)
    (f : α → Step β) : (x >>= f).after p = (f a).after (x.after p).toProgress := by
  rw [after_bind, h]

theorem after_bind_error {x : Step α} {p : Progress} {e : CommandError}
    (h : (x.after p).result = .error e) (f : α → Step β) :
    (x >>= f).after p = { (x.after p).toProgress with result := .error e } := by
  rw [after_bind, h]

theorem after_write {p : Progress} {path text : Text} {disk : Disk}
    (h : p.disk.write path text = .ok disk) :
    (write path text).after p = { p with disk, result := .ok () } := by
  have hwrite : (write path text).after p = (stored (p.disk.write path text)).after p := rfl
  rw [hwrite, h]
  rfl

theorem after_write_error {p : Progress} {path text : Text} {e : DiskFault}
    (h : p.disk.write path text = .error e) :
    (write path text).after p = { p with result := .error (.disk e) } := by
  have hwrite : (write path text).after p = (stored (p.disk.write path text)).after p := rfl
  rw [hwrite, h]
  rfl

/-! ## Silence -/

/-- A step that prints nothing and leaves all files as they are, and to which only the files
matter. -/
def Silent (x : Step α) : Prop :=
  ∀ p : Progress, x.after p =
    { log := p.log ++ (x.on p.disk).log, printed := p.printed, disk := p.disk
      result := (x.on p.disk).result }

theorem Silent.on_eq {x : Step α} (hx : x.Silent) (disk : Disk) :
    x.on disk = { log := (x.on disk).log, disk, result := (x.on disk).result } :=
  hx { disk }

theorem silent_pure (a : α) : (pure a : Step α).Silent := fun p => by
  simp [on, after_pure]

theorem silent_throw (e : CommandError) : (throw e : Step α).Silent := fun p => by
  simp [on, after_throw]

theorem silent_say (entries : Log) : (say entries).Silent := fun _ => rfl

/-- Two silent steps in turn are silent: the second one starts from the same files as the first. -/
theorem Silent.bind {x : Step α} {f : α → Step β} (hx : x.Silent) (hf : ∀ a, (f a).Silent) :
    (x >>= f).Silent := by
  intro p
  cases h : (x.on p.disk).result with
  | error e =>
    have herror : (x.after p).result = .error e := by rw [hx p, h]
    rw [after_bind_error herror, on, after_bind_error h, hx p]
    rfl
  | ok a =>
    have hok : (x.after p).result = .ok a := by rw [hx p, h]
    rw [after_bind_ok hok, on, after_bind_ok h, ← on, hx p, hx.on_eq, hf a, hf a ⟨_, _, p.disk⟩,
      List.append_assoc]

theorem silent_refuse (cause : Refusal) : (refuse cause : Step α).Silent :=
  silent_throw _

theorem silent_settled (r : Except Refusal α) : (settled r).Silent := by
  cases r with
  | error cause => exact silent_refuse cause
  | ok a => exact silent_pure a

theorem silent_logged (r : α × Log) : (logged r).Silent :=
  (silent_say r.2).bind fun _ => silent_pure r.1

theorem silent_ofMerge (r : Except Fault α × Log) : (ofMerge r).Silent := by
  refine (silent_say r.2).bind fun _ => ?_
  cases r.1 with
  | error f => exact silent_throw _
  | ok a => exact silent_pure a

/-- A step that looks at the files and goes on silently. -/
theorem silent_of_disk {x : Step α} {f : Disk → Step α} (hf : ∀ disk, (f disk).Silent)
    (h : ∀ p, x.after p = (f p.disk).after p) : x.Silent := by
  intro p
  rw [h p, hf, on, on, h]

theorem silent_found (path : Text) (r : Except DiskFault (Option Text)) :
    (found path r).Silent := by
  rcases r with e | _ | text
  · exact silent_throw _
  · exact silent_refuse _
  · exact silent_pure text

theorem silent_file (path : Text) : (file path).Silent :=
  silent_of_disk (fun disk => silent_found path (disk.read path)) fun _ => rfl

theorem silent_config (root : Text) : (config root).Silent :=
  silent_of_disk (fun disk => silent_logged (Config.load disk root)) fun _ => rfl

/-! ## Results -/

section

variable (disk : Disk)

theorem result_settled (r : Except Refusal α) :
    ((settled r).on disk).result = r.mapError .refused := by
  cases r <;> rfl

theorem result_ofMerge (r : Except Fault α × Log) :
    ((ofMerge r).on disk).result = r.1.mapError .ofFault := by
  obtain ⟨_ | a, log⟩ := r <;> rfl

theorem result_config (root : Text) :
    ((config root).on disk).result = .ok (Config.load disk root).1 := rfl

theorem result_file (path : Text) : ((file path).on disk).result =
    match disk.read path with
    | .error e => .error (.disk e)
    | .ok none => .error (.refused (.fileNotFound path))
    | .ok (some text) => .ok text := by
  have hfile : (file path).on disk = (found path (disk.read path)).on disk := rfl
  rw [hfile]
  rcases disk.read path with _ | _ | _ <;> rfl

theorem result_file_of_read {disk : Disk} {path text : Text}
    (h : disk.read path = .ok (some text)) : ((file path).on disk).result = .ok text := by
  rw [result_file, h]

end

/-- Silent steps in turn have the result of the second one, if the first one has any. -/
theorem result_bind {x : Step α} {f : α → Step β} (hx : x.Silent) (hf : ∀ a, (f a).Silent)
    (disk : Disk) : ((x >>= f).on disk).result =
      (x.on disk).result.bind fun a => ((f a).on disk).result := by
  cases h : (x.on disk).result with
  | error e =>
    rw [on, after_bind_error h]
    rfl
  | ok a =>
    rw [on, after_bind_ok h, ← on, hx.on_eq, hf a]
    rfl

end TreeMerge.Step

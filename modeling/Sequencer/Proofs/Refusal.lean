import Sequencer.Proofs.ActiveList
import Sequencer.Proofs.Removal

/-!
# Refusals

A command that was not done says so in its reply. Between calm commands it has then changed
nothing: what guards and validators answered and what was logged is in the journal, and that is
all. A stop that refuses takes the sequence off the active list all the same; that it was not in
the list is what the roster knows of an idle sequence.
-/

set_option autoImplicit false

namespace Sequencer

def Reply.isNo : Reply → Bool
  | .yesNo answer => !answer
  | .bookmark b => b.isNone
  | .refused _ => true
  | _ => false

def Command.refuses (c : Command) (r : Reply) : Bool :=
  match c with
  | .register _ | .registerHeld _ | .start _ | .stop _ | .pause _ | .resume _ | .togglePause _
  | .reset _ | .remove _ | .capture _ _ | .restore _ => r.isNo
  | _ => false

def Entry.ofRefusal : Entry → Bool
  | .notice _ => true
  | .polled (.guard _) _ _ => true
  | .polled (.validator _ _) _ _ => true
  | .dropped _ running => !running
  | _ => false

namespace Stage

/-- Only the journal has grown, by entries that tell of no change. -/
def Unmoved (s t : Stage) : Prop :=
  ∃ l, t = { s with journal := l ++ s.journal } ∧ ∀ e ∈ l, e.ofRefusal = true

def checked (id : Nat) (s : Stage) : Stage := s.modify id fun q => { q with validators := [] }

/-- What a refusal uses up: a start that gets as far as the validators takes them from the
sequence, and a held sequence leaves its slot. -/
def usedUp (c : Command) (r : Reply) (s : Stage) : Stage :=
  match c, r with
  | .start name, .refused (.invalid _ _) => (s.find? name).elim s fun id => s.checked id
  | .registerHeld slot, _ => { s with held := s.held.erase slot }
  | _, _ => s

namespace Unmoved

variable {s t u : Stage}

theorem refl (s : Stage) : s.Unmoved s := ⟨[], rfl, by simp⟩

theorem note (h : s.Unmoved t) {e : Entry} (he : e.ofRefusal = true) : s.Unmoved (t.note e) := by
  obtain ⟨l, rfl, hl⟩ := h
  exact ⟨e :: l, rfl, by simpa [he] using hl⟩

theorem trans (h : s.Unmoved t) (h' : t.Unmoved u) : s.Unmoved u := by
  obtain ⟨l, rfl, hl⟩ := h
  obtain ⟨l', rfl, hl'⟩ := h'
  refine ⟨l' ++ l, by simp, fun e he => ?_⟩
  exact (List.mem_append.mp he).elim (hl' e) (hl e)

end Unmoved

end Stage

def Act.Idle {α : Type} (act : Act α) : Prop :=
  ∀ s : Stage, s.Unmoved (act s).2

namespace Act.Idle

variable {α β : Type}

theorem pure (a : α) : Act.Idle (pure a : Act α) := fun s => .refl s

theorem read (f : Stage → α) : Act.Idle (.read f) := fun s => .refl s

theorem note {e : Entry} (he : e.ofRefusal = true) : Act.Idle (.note e) :=
  fun s => (Stage.Unmoved.refl s).note he

theorem bind {x : Act α} {f : α → Act β} (hx : x.Idle) (hf : ∀ a, (f a).Idle) :
    (x >>= f).Idle := by
  intro s
  have h := hx s
  rw [Act.bind_apply]
  rcases hs : x s with ⟨a | a, t⟩ <;> rw [hs] at h
  · exact h
  · exact h.trans (hf a t)

end Act.Idle

theorem ask_idle {asker : Asker} (h : ∀ id answer, (Entry.polled asker id answer).ofRefusal = true)
    (owner : String) (polls : Nat) (c : Condition) : (ask asker owner polls c).Idle := by
  refine .bind (.read _) fun r => ?_
  cases r with
  | ok answer => exact .bind (.note (h c.id answer)) fun _ => .pure answer
  | error e => exact fun s => .refl s

namespace Conductor

variable {run : Runner} {id : Nat} {s t : Stage}

theorem admitted_idle (id : Nat) (guard : Option Condition) : (admitted id guard).Idle := by
  cases guard with
  | none => exact .pure true
  | some g => exact ask_idle (fun _ _ => rfl) _ _ g

theorem failures_idle (id index : Nat) (l : List Validator) : (failures id index l).Idle := by
  induction l generalizing index with
  | nil => exact .pure []
  | cons v rest ih =>
    exact .bind (ask_idle (fun _ _ => rfl) _ _ _) fun _ => .bind (ih (index + 1)) fun _ => .pure _

/-- A trial that does not set the sequence running has only used up its validators. -/
theorem tryOut_refused {q : Sequence} {r : Except Refusal Bool} (h : tryOut id q s = (.ok r, t)) :
    r = .ok true ∨ (∃ failed, r = .error (.invalid q.name failed)) ∧ (s.checked id).Unmoved t := by
  have hf := failures_idle id 0 q.validators (s.checked id)
  simp only [tryOut, Act.bind_apply, Act.change] at h
  rw [← Stage.checked] at h
  rcases hl : failures id 0 q.validators (s.checked id) with ⟨e | failed, u⟩
  · rw [hl] at h
    cases h
  · rw [hl] at h hf
    dsimp only at h
    split at h
    · exact .inl (Except.ok.inj (congrArg Prod.fst h)).symm
    · obtain ⟨hr, rfl⟩ := Prod.mk.inj h
      exact .inr ⟨⟨failed, (Except.ok.inj hr).symm⟩, hf⟩

/-- A launch is refused where the sequence runs, by the guard, or by the validators. -/
theorem launch_refused {r : Except Refusal Bool} (h : launch id s = (.ok r, t)) :
    r = .ok true ∨ r = .ok false ∧ s.Unmoved t ∨
      (∃ name failed, r = .error (.invalid name failed)) ∧ (s.checked id).Unmoved t := by
  simp only [launch, Act.bind_apply, Act.read] at h
  split at h
  · obtain ⟨hr, rfl⟩ := Prod.mk.inj h
    exact .inr (.inl ⟨(Except.ok.inj hr).symm, (Stage.Unmoved.refl s).note rfl⟩)
  · have hg := admitted_idle id (s.sequence id).guard s
    rw [Act.bind_apply] at h
    rcases ha : admitted id (s.sequence id).guard s with ⟨e | ok, u⟩
    · rw [ha] at h
      cases h
    · rw [ha] at h hg
      dsimp only at h
      split at h
      · obtain ⟨hr, rfl⟩ := Prod.mk.inj h
        exact .inr (.inl ⟨(Except.ok.inj hr).symm, hg.note rfl⟩)
      · rcases tryOut_refused h with hr | ⟨⟨failed, hr⟩, hu⟩
        · exact .inl hr
        · obtain ⟨l, rfl, hl⟩ := hg
          obtain ⟨l', rfl, hl'⟩ := hu
          refine .inr (.inr ⟨⟨_, failed, hr⟩, l' ++ l, by simp [Stage.checked, Stage.modify], ?_⟩)
          exact fun e he => (List.mem_append.mp he).elim (hl' e) (hl e)

/-- Only a launch that succeeds goes on to the active list and the callback. -/
theorem start_refused {name : String} {r : Except Refusal Bool}
    (h : start run name s = (.ok r, t)) :
    r = .ok true ∨ r = .ok false ∧ s.Unmoved t ∨
      ∃ id who failed, s.find? name = some id ∧ r = .error (.invalid who failed) ∧
        (s.checked id).Unmoved t := by
  rw [start] at h
  cases hid : s.find? name with
  | none =>
    rw [onNamed_none hid] at h
    obtain ⟨hr, rfl⟩ := Prod.mk.inj h
    exact .inr (.inl ⟨(Except.ok.inj hr).symm, (Stage.Unmoved.refl s).note rfl⟩)
  | some id =>
    rw [onNamed_some hid, Act.bind_apply] at h
    rcases hl : launch id s with ⟨e | r', u⟩ <;> rw [hl] at h
    · cases h
    rcases launch_refused hl with rfl | ⟨rfl, hu⟩ | ⟨⟨who, failed, rfl⟩, hu⟩
    · simp only [Act.bind_apply, Act.change] at h
      rcases hn : notify run id .started (u.enlist id) with ⟨e | a, v⟩ <;> rw [hn] at h
      · cases h
      · exact .inl (Except.ok.inj (congrArg Prod.fst h)).symm
    · obtain ⟨hr, rfl⟩ := Prod.mk.inj h
      exact .inr (.inl ⟨(Except.ok.inj hr).symm, hu⟩)
    · obtain ⟨hr, rfl⟩ := Prod.mk.inj h
      exact .inr (.inr ⟨id, who, failed, rfl, (Except.ok.inj hr).symm, hu⟩)

theorem breakOff_answers {stopped : Bool} (h : breakOff run id s = (.ok stopped, t)) :
    stopped = (s.sequence id).running := by
  cases hr : (s.sequence id).running with
  | false =>
    rw [breakOff_idle run hr] at h
    exact (Except.ok.inj (congrArg Prod.fst h)).symm
  | true =>
    simp only [breakOff, Act.bind_apply, Act.read] at h
    rw [if_pos hr, Act.bind_apply] at h
    simp only [Act.bind_apply, Act.change, Act.say, Act.note] at h
    split at h
    · exact (Except.ok.inj (congrArg Prod.fst h)).symm
    · cases h

/-- A stop refuses an idle sequence, which is not in the active list, so taking it off the list
changes nothing. -/
theorem stop_refused {name : String} (h : stop run name s = (.ok false, t))
    (hidle : ∀ id, (s.sequence id).running = false → id ∉ s.active) : s.Unmoved t := by
  rw [stop] at h
  cases hid : s.find? name with
  | none =>
    rw [onNamed_none hid] at h
    obtain ⟨-, rfl⟩ := Prod.mk.inj h
    exact (Stage.Unmoved.refl s).note rfl
  | some id =>
    rw [onNamed_some hid, Act.bind_apply] at h
    rcases hb : breakOff run id s with ⟨e | stopped, u⟩ <;> rw [hb] at h
    · cases h
    obtain ⟨hr, hu⟩ := Prod.mk.inj h
    obtain rfl : stopped = false := Except.ok.inj hr
    have hrun : (s.sequence id).running = false := (breakOff_answers hb).symm
    rw [breakOff_idle run hrun] at hb
    obtain ⟨-, rfl⟩ := Prod.mk.inj hb
    have hout : id ∉ (s.note (.dropped id (s.sequence id).running)).active := hidle id hrun
    rw [← hu]
    show s.Unmoved ((s.note (.dropped id (s.sequence id).running)).delist id)
    rw [Stage.delist_of_not_mem _ hout]
    exact (Stage.Unmoved.refl s).note (by simp [Entry.ofRefusal, hrun])

theorem remove_refused {name : String} (h : remove run name s = (.ok false, t)) :
    s.Unmoved t := by
  cases hid : s.find? name with
  | none =>
    simp only [remove, Act.bind_apply, Act.read, hid] at h
    obtain ⟨-, rfl⟩ := Prod.mk.inj h
    exact .refl s
  | some id =>
    simp only [remove, Act.bind_apply, Act.read, hid, Act.change] at h
    rcases hb : breakOff run id (s.unregister name) with ⟨e | stopped, u⟩ <;> rw [hb] at h
    · cases h
    · exact absurd (Except.ok.inj (congrArg Prod.fst h)) (by simp)

/-- An operation that always answers for a registered sequence refuses only an unknown name. -/
theorem onNamed_refused {α : Type} {name : String} {absent : α} {act : Nat → Act α}
    (hact : ∀ id u, (act id u).1 ≠ .ok absent) (h : onNamed name absent act s = (.ok absent, t)) :
    s.Unmoved t := by
  cases hid : s.find? name with
  | none =>
    rw [onNamed_none hid] at h
    obtain ⟨-, rfl⟩ := Prod.mk.inj h
    exact (Stage.Unmoved.refl s).note rfl
  | some id =>
    rw [onNamed_some hid] at h
    exact absurd (congrArg Prod.fst h) (hact id s)

theorem setPaused_refused {name : String} {f : Bool → Bool}
    (h : setPaused name f s = (.ok false, t)) : s.Unmoved t :=
  onNamed_refused (fun _ _ hf => absurd (Except.ok.inj hf) (by simp)) h

theorem reset_refused {name : String} (h : reset name s = (.ok false, t)) : s.Unmoved t :=
  onNamed_refused (fun _ _ hf => absurd (Except.ok.inj hf) (by simp)) h

theorem restore_refused {b : Bookmark} (h : restore b s = (.ok false, t)) : s.Unmoved t :=
  onNamed_refused (fun _ _ hf => absurd (Except.ok.inj hf) (by simp)) h

theorem capture_refused {name : String} (h : capture name s = (.ok none, t)) : s.Unmoved t :=
  onNamed_refused (fun _ _ hf => absurd (Except.ok.inj hf) (by simp)) h

theorem enroll_refused {q : Sequence} {why : Refusal} (h : enroll q s = (.ok (.error why), t)) :
    t = s := by
  simp only [enroll, Act.bind_apply, Act.read] at h
  split at h
  · exact (congrArg Prod.snd h).symm
  · exact absurd (Except.ok.inj (congrArg Prod.fst h)) (by simp)

end Conductor

/-- The reply of a command that only words what its operation has answered. -/
theorem Act.answer_of_reply {α : Type} {act : Act α} {f : α → Reply} {s t : Stage} {r : Reply}
    (h : (act >>= fun a => Pure.pure (f a)) s = (.ok r, t)) : ∃ a, act s = (.ok a, t) ∧ r = f a := by
  rw [Act.bind_apply] at h
  rcases hs : act s with ⟨e | a, u⟩ <;> rw [hs] at h
  · cases h
  · obtain ⟨hr, rfl⟩ := Prod.mk.inj h
    exact ⟨a, rfl, (Except.ok.inj hr).symm⟩

section

variable {run : Runner} {s t : Stage} {r : Reply}

theorem start_reply_refused {name : String} (h : dispatch run (.start name) s = (.ok r, t))
    (hr : (Command.start name).refuses r = true) : (s.usedUp (.start name) r).Unmoved t := by
  obtain ⟨a, ha, rfl⟩ := Act.answer_of_reply h
  rcases Conductor.start_refused ha with rfl | ⟨rfl, hu⟩ | ⟨id, who, failed, hid, rfl, hu⟩
  · cases hr
  · exact hu
  · simpa [Stage.usedUp, Reply.ofOutcome, hid] using hu

theorem register_reply_refused {o : Outline Command}
    (h : dispatch run (.register o) s = (.ok r, t))
    (hr : (Command.register o).refuses r = true) : s.Unmoved t := by
  obtain ⟨a, ha, rfl⟩ := Act.answer_of_reply h
  cases a with
  | ok _ => cases hr
  | error why =>
    simp only [Conductor.register, Act.bind_apply, Act.read] at ha
    rw [Conductor.enroll_refused ha]
    exact .refl s

theorem registerHeld_reply_refused {slot : String}
    (h : dispatch run (.registerHeld slot) s = (.ok r, t))
    (hr : (Command.registerHeld slot).refuses r = true) :
    (s.usedUp (.registerHeld slot) r).Unmoved t := by
  simp only [dispatch, Hands.register] at h
  split at h
  · next q hq =>
    rcases he : Conductor.enroll q { s with held := s.held.erase slot } with ⟨e | a, u⟩ <;>
      rw [he] at h
    · cases h
    obtain ⟨hreply, rfl⟩ := Prod.mk.inj h
    cases a with
    | ok _ =>
      obtain rfl := Except.ok.inj hreply
      cases hr
    | error why =>
      rw [Conductor.enroll_refused he]
      exact .refl _
  · obtain rfl := Except.ok.inj (congrArg Prod.fst h)
    cases hr

theorem capture_reply_refused {name : String} {keepAs : Option String}
    (h : dispatch run (.capture name keepAs) s = (.ok r, t))
    (hr : (Command.capture name keepAs).refuses r = true) : s.Unmoved t := by
  simp only [dispatch, Act.bind_apply] at h
  rcases hc : Conductor.capture name s with ⟨e | b, u⟩ <;> rw [hc] at h
  · cases h
  cases b with
  | none =>
    have hu : u = t := by cases keepAs <;> exact congrArg Prod.snd h
    exact hu ▸ Conductor.capture_refused hc
  | some b =>
    have hb : r = .bookmark (some b) := by
      cases keepAs <;> exact (Except.ok.inj (congrArg Prod.fst h)).symm
    subst hb
    cases hr

theorem yesNo_reply_refused {act : Act Bool}
    (h : (act >>= fun a => pure (.yesNo a)) s = (.ok r, t)) (hr : r.isNo = true) :
    act s = (.ok false, t) := by
  obtain ⟨a, ha, rfl⟩ := Act.answer_of_reply h
  obtain rfl : a = false := by simpa [Reply.isNo] using hr
  exact ha

theorem restore_reply_refused {place : Place} (h : dispatch run (.restore place) s = (.ok r, t))
    (hr : r.isNo = true) : s.Unmoved t := by
  cases place with
  | «at» b => exact Conductor.restore_refused (yesNo_reply_refused h hr)
  | kept key =>
    simp only [dispatch, Act.bind_apply, Act.read] at h
    cases hb : s.host.bookmarks.get? key with
    | some b =>
      rw [hb] at h
      exact Conductor.restore_refused (yesNo_reply_refused h hr)
    | none =>
      rw [hb] at h
      obtain rfl := Except.ok.inj (congrArg Prod.fst h)
      cases hr

end

/-- Between the commands of a host that nothing has halted, a command that reports a refusal has
done nothing: the registry, the sequences with the progress of their steps, the active list, the
barriers and what the host holds are as they were, and the journal has gained only messages and
what guards and validators answered, so no step and no callback was called. The one exception are
the validators of a sequence that a start has tried in vain. -/
theorem refusals_change_nothing {settings : Settings} {host : Host} {s t : Stage} {run : Runner}
    {c : Command} {r : Reply} (h : Session true (.opening settings host) s)
    (hc : dispatch run c s = (.ok r, t)) (hr : c.refuses r = true) : (s.usedUp c r).Unmoved t := by
  have hidle : ∀ id, (s.sequence id).running = false → id ∉ s.active := by
    intro id hid hmem
    obtain ⟨-, hrun⟩ := (h.roster.listed id hmem).resolve_left fun hf => hf
    exact Bool.false_ne_true (hid.symm.trans hrun)
  cases c with
  | start name => exact start_reply_refused hc hr
  | register o => exact register_reply_refused hc hr
  | registerHeld slot => exact registerHeld_reply_refused hc hr
  | capture name keepAs => exact capture_reply_refused hc hr
  | stop name => exact Conductor.stop_refused (yesNo_reply_refused hc hr) hidle
  | pause name => exact Conductor.setPaused_refused (yesNo_reply_refused hc hr)
  | resume name => exact Conductor.setPaused_refused (yesNo_reply_refused hc hr)
  | togglePause name => exact Conductor.setPaused_refused (yesNo_reply_refused hc hr)
  | reset name => exact Conductor.reset_refused (yesNo_reply_refused hc hr)
  | remove name => exact Conductor.remove_refused (yesNo_reply_refused hc hr)
  | restore place => exact restore_reply_refused hc hr
  | _ => exact absurd hr Bool.false_ne_true

/-- A second stop of a sequence, and a start that a validator is against. -/
theorem refusals_change_nothing_stopped :
    let never : Validator := ⟨{ test := .const false }, "never"⟩
    let a : Outline Command := { name := "a", validators := [never] }
    let l : List Command := [.register a, .restore (.at ⟨"a", 0⟩), .stop "a"]
    let s := ((Stage.opening {} {}).run false l).2
    s.Unmoved (dispatch (perform 1) (.stop "a") s).2 ∧
      (s.checked 0).Unmoved (dispatch (perform 1) (.start "a") s).2 := by
  intro never a l s
  have hcalm : (Stage.opening {} {}).calmly l = true := by decide +kernel
  have h : Session true (.opening {} {}) s := hcalm ▸ Session.run false l (.opening {} {})
  have hstop : (dispatch (perform 1) (.stop "a") s).1 = .ok (.yesNo false) := by rfl
  have hstart : (dispatch (perform 1) (.start "a") s).1 = .ok (.refused (.invalid "a" ["never"])) :=
    by rfl
  have hfind : s.find? "a" = some 0 := by decide +kernel
  clear_value s
  have hstopped := refusals_change_nothing h (Prod.ext hstop rfl) rfl
  have hstarted := refusals_change_nothing h (Prod.ext hstart rfl) rfl
  exact ⟨hstopped, by simpa [Stage.usedUp, hfind] using hstarted⟩

end Sequencer

import Sequencer.Proofs.LeftAlone
import Sequencer.Proofs.Upkeep

/-!
# Who pauses a sequence

Whatever a command does, and whatever user code runs meanwhile: as long as the journal tells of no
pause, resume or toggle under the name of a sequence, the sequence is paused afterwards if and only
if it was before.
-/

set_option autoImplicit false

namespace Sequencer

def Entry.pauses (name : String) : Entry → Bool
  | .did c _ => c.pauses? == some name
  | _ => false

structure Stage.Flagged (id : Nat) (name : String) (b : Bool) (j : List Entry) (s : Stage) :
    Prop where
  lt : id < s.sequences.length
  only : ∀ n, s.find? n = some id → n = name
  flag : ∃ l, s.journal = l ++ j ∧
    ((∀ e ∈ l, e.pauses name = false) → (s.sequence id).paused = b)

section

variable {id : Nat} {name : String} {b : Bool} {j : List Entry} {s t : Stage}

namespace Stage.Flagged

theorem note (h : s.Flagged id name b j) (e : Entry) : (s.note e).Flagged id name b j := by
  obtain ⟨l, hl, hb⟩ := h.flag
  exact ⟨h.lt, h.only, e :: l, congrArg (e :: ·) hl,
    fun hq => hb fun e' he' => hq e' (List.mem_cons_of_mem _ he')⟩

/-- Once it is told that the sequence was paused, nothing more is said. -/
theorem pausing (hlt : id < s.sequences.length) (ho : ∀ n, s.find? n = some id → n = name)
    {l : List Entry} (hl : s.journal = l ++ j) {c : Command} (hc : c.pauses? = some name)
    (r : Reply) : (s.note (.did c r)).Flagged id name b j := by
  refine ⟨hlt, ho, .did c r :: l, congrArg (Entry.did c r :: ·) hl, fun hq => ?_⟩
  exact absurd (hq _ List.mem_cons_self) (by simp [Entry.pauses, hc])

/-- A change of neither the sequences nor the names nor the journal. -/
theorem same (h : s.Flagged id name b j) (hq : t.sequences = s.sequences)
    (hr : t.registry = s.registry) (hj : t.journal = s.journal) : t.Flagged id name b j := by
  refine ⟨by rw [hq]; exact h.lt, fun n hn => h.only n ?_, ?_⟩
  · rw [← hn, Stage.find?, Stage.find?, hr]
  · rw [hj, Stage.sequence, hq]
    exact h.flag

theorem modify (h : s.Flagged id name b j) (i : Nat) {f : Sequence → Sequence}
    (hf : i = id → ∀ q, (f q).paused = q.paused) : (s.modify i f).Flagged id name b j := by
  refine ⟨by simpa using h.lt, h.only, ?_⟩
  obtain ⟨l, hl, hb⟩ := h.flag
  refine ⟨l, hl, fun hq => Eq.trans ?_ (hb hq)⟩
  by_cases hi : id = i
  · exact s.field_modify Sequence.paused (hf hi.symm) i id
  · rw [s.sequence_modify_ne f hi]

theorem unregister (h : s.Flagged id name b j) (n : String) :
    (s.unregister n).Flagged id name b j :=
  ⟨h.lt, fun n' hn => h.only n' (s.find?_of_unregister hn), h.flag⟩

theorem enroll (h : s.Flagged id name b j) (q : Sequence) : (s.enroll q).Flagged id name b j := by
  refine ⟨by simpa using Nat.lt_succ_of_lt h.lt, fun n hn => ?_, ?_⟩
  · rw [Stage.find?_enroll] at hn
    split at hn
    · exact absurd (Option.some.inj hn) (Nat.ne_of_gt h.lt)
    · exact h.only n hn
  · rw [Stage.sequence_enroll, if_neg (Nat.ne_of_lt h.lt)]
    exact h.flag

end Stage.Flagged

namespace Act.Upholds

variable {P : Stage → Prop}

/-- An entry whatever it tells. -/
theorem noting (h : ∀ s e, P s → P (s.note e)) (e : Entry) : (Act.note e).Upholds P :=
  fun s hs => h s e hs

theorem asking (h : ∀ s e, P s → P (s.note e)) (asker : Asker) (owner : String) (polls : Nat)
    (c : Condition) : (ask asker owner polls c).Upholds P := by
  refine .bind (.read _) fun r => ?_
  cases r with
  | ok answer => exact .bind (.noting h _) fun _ => .pure answer
  | error e => exact .halt e

end Act.Upholds

namespace Conductor

theorem failures_flagged (i index : Nat) (l : List Validator) :
    (failures i index l).Upholds (Stage.Flagged id name b j) := by
  induction l generalizing index with
  | nil => exact .pure []
  | cons v rest ih =>
    exact .bind (.asking (fun _ e hs => hs.note e) _ _ _ _) fun _ => .bind (ih (index + 1)) fun _ =>
      .pure _

theorem launch_flagged (i : Nat) : (launch i).Upholds (Stage.Flagged id name b j) := by
  have hnote : ∀ e, (Act.note e).Upholds (Stage.Flagged id name b j) :=
    .noting fun _ e hs => hs.note e
  have hmodify : ∀ f : Sequence → Sequence, (∀ q, (f q).paused = q.paused) →
      (Act.change (·.modify i f)).Upholds (Stage.Flagged id name b j) :=
    fun f hf s hs => hs.modify i fun _ => hf
  have hadmitted : ∀ guard, (admitted i guard).Upholds (Stage.Flagged id name b j) := by
    intro guard
    cases guard with
    | none => exact .pure true
    | some g => exact .asking (fun _ e hs => hs.note e) _ _ _ g
  refine .bind (.read _) fun q => .ite (.bind (hnote _) fun _ => .pure _) ?_
  refine .bind (hadmitted q.guard) fun _ => .ite (.bind (hnote _) fun _ => .pure _) ?_
  refine .bind (hmodify _ fun _ => rfl) fun _ =>
    .bind (failures_flagged i 0 q.validators) fun failed => .ite ?_ (.pure _)
  exact .bind (hmodify _ fun _ => rfl) fun _ => .bind (hnote _) fun _ =>
    .bind (hnote _) fun _ => .bind (hnote _) fun _ => .pure _

end Conductor

def flagging (id : Nat) (name : String) (b : Bool) (j : List Entry) : Upkeep where
  holds := Stage.Flagged id name b j
  note h _ := h.note _
  modify i _ h hf := h.modify i fun _ => hf.paused
  same h hq hr hj := h.same hq hr hj
  unregister n h := h.unregister n
  enroll q h := h.enroll q
  launch i h := Conductor.launch_flagged i _ h

/-- To pause another sequence does nothing to this one. -/
theorem Conductor.setPaused_flagged {n : String} (hn : n ≠ name) (f : Bool → Bool) :
    (setPaused n f).Upholds (Stage.Flagged id name b j) := by
  intro s hs
  cases hi : s.find? n with
  | none =>
    rw [setPaused, onNamed_none hi]
    exact hs.note _
  | some i =>
    rw [setPaused, onNamed_some hi]
    refine hs.modify i fun h => ?_
    subst h
    exact absurd (hs.only n hi) hn

/-- Only the three commands that are there for it change whether a sequence is paused. -/
theorem dispatch_flagged {run : Runner} (hrun : run.Upholds (Stage.Flagged id name b j))
    (c : Command) (hc : c.pauses? ≠ some name) :
    (dispatch run c).Upholds (Stage.Flagged id name b j) :=
  dispatch_upholds (I := flagging id name b j) hrun c fun _ hn f =>
    Conductor.setPaused_flagged (fun h => hc (hn.trans (congrArg some h))) f

theorem perform_flagged (depth : Nat) :
    Runner.Upholds (Stage.Flagged id name b j) (perform depth) := by
  induction depth with
  | zero => exact fun c => .bind (.halt _) fun _ => .noting (fun _ e hs => hs.note e) _
  | succ depth ih =>
    intro c
    by_cases hc : c.pauses? = some name
    · -- whatever the command has done, the entry tells of it
      intro s hs
      have hset : ∀ f : Bool → Bool, ((do
          let reply ← (do return Reply.yesNo (← Conductor.setPaused name f) : Act Reply)
          Act.note (.did c reply) : Act Unit) s).2.Flagged id name b j := by
        intro f
        obtain ⟨l, hl, -⟩ := hs.flag
        cases hi : s.find? name with
        | none =>
          simp only [Act.bind_apply, Conductor.setPaused, Conductor.onNamed_none hi]
          exact (hs.note _).note _
        | some i =>
          simp only [Act.bind_apply, Conductor.setPaused, Conductor.onNamed_some hi]
          exact .pausing (s := s.modify i _) (by simpa using hs.lt) hs.only hl hc _
      cases c with
      | pause n =>
        obtain rfl : n = name := Option.some.inj hc
        exact hset _
      | resume n =>
        obtain rfl : n = name := Option.some.inj hc
        exact hset _
      | togglePause n =>
        obtain rfl : n = name := Option.some.inj hc
        exact hset _
      | _ => exact absurd hc (by simp [Command.pauses?])
    · exact .bind (dispatch_flagged ih c hc) fun _ => .noting (fun _ e hs => hs.note e) _

end

/-- A command that is not given to pause or to resume a sequence leaves it paused or not as it was,
unless user code that runs meanwhile pauses or resumes it. -/
theorem perform_paused {s : Stage} (hs : s.Sound) {id : Nat} (hid : id < s.sequences.length)
    (depth : Nat) (c : Command) (hc : c.pauses? ≠ some (s.sequence id).name)
    (hu : OnlyAdds (fun e => e.pauses (s.sequence id).name = false) s (perform depth c s).2) :
    ((perform depth c s).2.sequence id).paused = (s.sequence id).paused := by
  have hflag : s.Flagged id (s.sequence id).name (s.sequence id).paused s.journal :=
    ⟨hid, fun n hn => (hs.named n id hn).2.symm, [], rfl, fun _ => rfl⟩
  cases depth with
  | zero => rfl
  | succ depth =>
    obtain ⟨l, hl, hp⟩ := (dispatch_flagged (perform_flagged depth) c hc s hflag).flag
    exact hp (hu.of_append hl)

end Sequencer

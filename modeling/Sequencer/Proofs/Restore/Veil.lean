import Sequencer.Proofs.Likeness.Disguise

/-!
# Stages on which a sequence is veiled

Seen from outside, a sequence has a name, a cursor and some flags; what it consists of is veiled.
A veil also counts the steps of the sequence from another one on. Acts that keep away from the
sequence do on a veiled stage what they do on the stage itself, and what they note is the same but
for the count. A step does not look at the sequence it belongs to, so called on behalf of a veiled
sequence it does so too, as long as the user code in it keeps away.
-/

set_option autoImplicit false

namespace Sequencer

def Site.shift (id k : Nat) : Site → Site
  | .top i n => .top i (if i = id then n + k else n)
  | .held slot => .held slot
  | .child σ i => .child (σ.shift id k) i
  | .otherwise σ i => .otherwise (σ.shift id k) i

def Notice.shift (name : String) (k : Nat) : Notice → Notice
  | .entered .sequence owner label index =>
    .entered .sequence owner label (if owner = name then index + k else index)
  | .exited .sequence owner label index status =>
    .exited .sequence owner label (if owner = name then index + k else index) status
  | n => n

def Entry.shift (id : Nat) (name : String) (k : Nat) : Entry → Entry
  | .notice n => .notice (n.shift name k)
  | .polled (.step σ) c answer => .polled (.step (σ.shift id k)) c answer
  | .called σ c => .called (σ.shift id k) c
  | .returned σ r => .returned (σ.shift id k) r
  | .moved i .settled c => .moved i .settled (if i = id then c + k else c)
  | e => e

def Sequence.veil (k : Nat) (q : Sequence) : Sequence :=
  { name := q.name
    current := q.current + k
    entered := q.entered
    running := q.running
    paused := q.paused
    ticking := q.ticking }

def Stage.veil (id k : Nat) (j : List Entry) (s : Stage) : Stage :=
  { s.modify id (Sequence.veil k) with journal := j }

namespace Stage

variable (s : Stage) (id k : Nat) (j : List Entry)

theorem modify_modify (f g : Sequence → Sequence) :
    (s.modify id f).modify id g = s.modify id fun q => g (f q) := by
  simp only [modify, List.modify_modify_eq]
  rfl

/-- A change of a sequence, before and behind the veil. -/
theorem modify_veil {id k : Nat} {f g : Sequence → Sequence}
    (h : ∀ q, (f q).veil k = g (q.veil k)) :
    (s.modify id f).veil id k j = (s.veil id k j).modify id g := by
  have hmodify : (s.modify id f).modify id (Sequence.veil k) =
      (s.modify id (Sequence.veil k)).modify id g := by
    simp only [modify_modify, h]
  exact congrArg (fun t : Stage => { t with journal := j }) hmodify

end Stage

theorem Notice.shift_common (name : String) (k : Nat) {n : Notice} (hn : n.isCommon = true) :
    n.shift name k = n := by
  unfold Notice.shift
  split <;> simp_all [Notice.isCommon]

theorem Entry.shift_common (id : Nat) (name : String) (k : Nat) {e : Entry}
    (he : e.isCommon = true) : e.shift id name k = e := by
  cases e with
  | notice n => exact congrArg Entry.notice (Notice.shift_common name k he)
  | polled asker c answer => exact absurd he (by simp [Entry.isCommon])
  | called σ c => exact absurd he (by simp [Entry.isCommon])
  | returned σ r => exact absurd he (by simp [Entry.isCommon])
  | moved i m c => exact absurd he (by simp [Entry.isCommon])
  | _ => rfl

def Disguise.veil (id : Nat) (name : String) (k : Nat) : Disguise id where
  look := Sequence.veil k
  site := Site.shift id k
  entry := Entry.shift id name k
  child _ _ := rfl
  otherwise _ _ := rfl
  common _ := Entry.shift_common id name k
  polled _ _ _ := rfl
  called _ _ := rfl
  returned _ _ := rfl

theorem Sequence.veil_resembles (k : Nat) (q : Sequence) : (q.veil k).Resembles q := ⟨rfl, rfl, rfl⟩

section

variable {id : Nat} {name : String} (M : Milieu id name) (k : Nat)

def Act.Veils {α : Type} (x y : Act α) : Prop :=
  ∀ s, M.world s → ∃ l, (x s).2.journal = l ++ s.journal ∧ M.world (x s).2 ∧
    (x s).2.sequence id = s.sequence id ∧
    ∀ j, y (s.veil id k j) =
      ((x s).1, (x s).2.veil id k (l.map (Entry.shift id name k) ++ j))

def Play.Veils {π α : Type} (x y : Play π α) : Prop :=
  ∀ p s, M.world s → ∃ l, (x (p, s)).2.2.journal = l ++ s.journal ∧ M.world (x (p, s)).2.2 ∧
    (x (p, s)).2.2.sequence id = s.sequence id ∧
    ∀ j, y (p, s.veil id k j) = ((x (p, s)).1, (x (p, s)).2.1,
      (x (p, s)).2.2.veil id k (l.map (Entry.shift id name k) ++ j))

def Act.Apart {α : Type} (x : Act α) : Prop := ∀ k, Act.Veils M k x x

end

section

variable {id : Nat} {name : String} {M : Milieu id name} {k : Nat} {α : Type} {x y : Act α}

/-- Behind a veil as in any disguise. -/
theorem Act.Veils.masks (h : Act.Veils M k x y) : Act.Masks (.veil id name k) M x y :=
  fun s hs _ => h s hs

theorem Act.Masks.veils (h : Act.Masks (.veil id name k) M x y) : Act.Veils M k x y :=
  fun s hs => h s hs ((s.sequence id).veil_resembles k)

abbrev Milieu.veiled (M : Milieu id name) (k : Nat) (q : Sequence) (j₀ j : List Entry) :
    Likeness :=
  (Disguise.veil id name k).likeness M (q.veil_resembles k) j₀ j

end

/-- An edit of the host's own state keeps away from all sequences. -/
theorem Change.apply_veils {id : Nat} {name : String} {M : Milieu id name} {k : Nat} (c : Change) :
    Act.Veils M k c.apply c.apply := by
  apply Act.Masks.veils
  exact .of_alike fun _ _ _ _ => c.apply_alike

section

variable {id : Nat} {name : String} (M : Milieu id name) (run : Runner)

mutual

/-- The user code in a step, and what the step does to other sequences, keeps away from the
sequence it belongs to. -/
def Step.Apart : Step Command → Prop
  | .call commands => (performAll run commands).Apart M
  | .startSequence target => (startAnother run name target).Apart M
  | .stopSequence target => (Conductor.stop run target).Apart M
  | .choose question yes no =>
    (performAll run question.code).Apart M ∧ stepsApart yes ∧ stepsApart no
  | .await question _ _ => (performAll run question.code).Apart M
  | .bounded _ _ steps => stepsApart steps
  | .retry _ steps => stepsApart steps
  | .group steps => stepsApart steps
  | .parallel _ steps => stepsApart steps
  | .custom onEnter onTick onExit _ =>
    (performAll run onEnter).Apart M ∧ (performAll run onTick).Apart M ∧
      (performAll run onExit).Apart M
  | _ => True

def stepsApart : List (Step Command) → Prop
  | [] => True
  | s :: rest => s.Apart ∧ stepsApart rest

end

variable {M run}

theorem performAll_apart {commands : List Command} (h : ∀ c ∈ commands, (run c).Apart M) :
    (performAll run commands).Apart M := by
  intro k
  apply Act.Masks.veils
  exact .of_alike fun _ hq j₀ j => performAll_alike fun c hc => (h c hc k).masks.alike hq j₀ j

mutual

theorem Step.Apart.userCode : (s : Step Command) → s.Apart M run →
    s.UserCode (fun _ x y => x = y ∧ x.Apart M) run run name
  | .call _, h => ⟨rfl, h⟩
  | .startSequence _, h => ⟨rfl, h⟩
  | .stopSequence _, h => ⟨rfl, h⟩
  | .custom _ _ _ _, h => ⟨⟨rfl, h.1⟩, ⟨rfl, h.2.1⟩, ⟨rfl, h.2.2⟩⟩
  | .choose _ yes no, h =>
    ⟨⟨rfl, h.1⟩, stepsApart.userCode yes h.2.1, stepsApart.userCode no h.2.2⟩
  | .await _ _ _, h => ⟨rfl, h⟩
  | .bounded _ _ steps, h => stepsApart.userCode steps h
  | .retry _ steps, h => stepsApart.userCode steps h
  | .group steps, h => stepsApart.userCode steps h
  | .parallel _ steps, h => stepsApart.userCode steps h
  | .wait _, _ => trivial
  | .frames _, _ => trivial
  | .publish _, _ => trivial
  | .invoke _ _, _ => trivial
  | .component _ _ _, _ => trivial
  | .tween _, _ => trivial
  | .barrier _ _, _ => trivial
  | .probe _ _, _ => trivial

theorem stepsApart.userCode : (l : List (Step Command)) → stepsApart M run l →
    stepsUserCode (fun _ x y => x = y ∧ x.Apart M) run run name l
  | [], _ => trivial
  | s :: rest, h => ⟨Step.Apart.userCode s h.1, stepsApart.userCode rest h.2⟩

end

theorem Step.Apart.alike {s : Step Command} (h : s.Apart M run) (k : Nat) (q : Sequence)
    (j₀ j : List Entry) : s.Alike (M.veiled k q j₀ j) run run name := by
  apply (Step.Apart.userCode s h).mono
  rintro α x _ ⟨rfl, hx⟩
  exact (hx k).masks.alike _ j₀ j

end

end Sequencer

import Sequencer.Proofs.Activation

/-!
# Ledgers

The journal and the barrier board are the books of a stage, and the progress of barriers goes
with them. A ledger is a fact about the progress of barriers that no growth of the board undoes,
and a relation between stages that only looks at the books. Whatever commands callbacks carry
out, every act of the library keeps the fact and obeys the relation, also when it halts, if a few
single changes of the books do.
-/

set_option autoImplicit false

namespace Sequencer

abbrev BarrierFact := String → UInt32 → Board → BarrierProgress → Prop

mutual

def Step.Holds (B : BarrierFact) : (s : Step Command) → Board → s.Progress → Prop
  | .barrier name expected, b => B name expected b
  | .choose _ yes no, b => fun (p : ChoiceProgress (Children yes) (Children no)) =>
    holdsChildren B yes b p.yes.children ∧ holdsChildren B no b p.no.children
  | .bounded _ _ steps, b => fun (p : BoundedProgress (Children steps)) =>
    holdsChildren B steps b p.body.children
  | .retry _ steps, b => fun (p : RetryProgress (Children steps)) =>
    holdsChildren B steps b p.body.children
  | .group steps, b => fun (p : Track (Children steps)) => holdsChildren B steps b p.children
  | .parallel _ steps, b => holdsLanes B steps b
  | _, _ => fun _ => True

def holdsChildren (B : BarrierFact) : (l : List (Step Command)) → Board → Children l → Prop
  | [], _ => fun _ => True
  | s :: rest, b => fun p => s.Holds B b p.1 ∧ holdsChildren B rest b p.2

def holdsLanes (B : BarrierFact) : (l : List (Step Command)) → Board → Lanes l → Prop
  | [], _ => fun _ => True
  | s :: rest, b => fun p => s.Holds B b p.1.child ∧ holdsLanes B rest b p.2

end

def Sequence.Holds (B : BarrierFact) (b : Board) (q : Sequence) : Prop :=
  ∀ part ∈ q.parts, part.step.Holds B b part.progress

def Held.Holds (B : BarrierFact) (b : Board) : Held → Prop
  | .part p => p.step.Holds B b p.progress
  | .track t => holdsChildren B t.steps b t.track.children
  | .sequence q => q.Holds B b

structure Stage.Holds (B : BarrierFact) (s : Stage) : Prop where
  sequences : ∀ id, (s.sequence id).Holds B s.barriers
  held : ∀ slot h, s.held.get? slot = some h → h.Holds B s.barriers

structure Stage.Later (s t : Stage) : Prop where
  counts : ∀ name, s.barriers.count name ≤ t.barriers.count name
  length : s.sequences.length ≤ t.sequences.length
  steps : ∀ id, id < s.sequences.length → (t.sequence id).steps = (s.sequence id).steps

namespace Stage.Later

variable {s t u : Stage}

theorem refl (s : Stage) : s.Later s :=
  ⟨fun _ => UInt32.le_refl _, Nat.le_refl _, fun _ _ => rfl⟩

theorem trans (h : s.Later t) (h' : t.Later u) : s.Later u :=
  ⟨fun name => UInt32.le_trans (h.counts name) (h'.counts name),
    Nat.le_trans h.length h'.length,
    fun id hid => (h'.steps id (Nat.lt_of_lt_of_le hid h.length)).trans (h.steps id hid)⟩

theorem of_same (hq : t.sequences = s.sequences) (hb : t.barriers = s.barriers) : s.Later t :=
  ⟨fun name => by rewrite [hb]; exact UInt32.le_refl _, Nat.le_of_eq (by rw [hq]),
    fun id _ => by simp only [Stage.sequence, hq]⟩

theorem step? (h : s.Later t) {σ : Site} {x : Step Command} (hx : s.step? σ = some x) :
    t.step? σ = some x := Stage.step?_of_steps h.steps σ x hx

end Stage.Later

def Stage.At (s : Stage) (σ : Site) (x : Step Command) : Prop :=
  σ.root = none ∨ s.step? σ = some x

namespace Stage.At

variable {s t : Stage} {σ : Site} {x y : Step Command} {i : Nat}

theorem later (h : s.At σ x) (hl : s.Later t) : t.At σ x := h.imp_right hl.step?

theorem child (h : s.At σ x) (hy : x.child? i = some y) : s.At (.child σ i) y :=
  h.imp_right fun hx => (Stage.step?_child hx i).trans hy

theorem otherwise (h : s.At σ x) (hy : x.otherwise? i = some y) : s.At (.otherwise σ i) y :=
  h.imp_right fun hx => (Stage.step?_otherwise hx i).trans hy

end Stage.At

namespace Entry

def isOrdinary : Entry → Bool
  | .turn _ _ => false
  | .arrived _ => false
  | .called _ _ => false
  | .returned _ _ => false
  | _ => true

end Entry

def Step.isBarrier : Step Command → Bool
  | .barrier _ _ => true
  | _ => false

def Stage.entering (σ : Site) (name : String) (n : Notice) (s : Stage) : Stage :=
  (((s.note (.called σ .enter)).arrive name).note (.notice n)).note (.returned σ none)

def Stage.saying (said : Option Notice) (s : Stage) : Stage :=
  match said with
  | some n => s.note (.notice n)
  | none => s

def Stage.answering (σ : Site) (dt : Float32) (said : Option Notice) (status : Status)
    (s : Stage) : Stage :=
  ((s.note (.called σ (.tick dt))).saying said).note (.returned σ (some status))

def BarrierProgress.verdict (p : BarrierProgress) (count expected : UInt32) : Status :=
  if p.released || decide (count ≥ expected) then .succeeded else .running

/-- A fact about barriers and a relation between books, with what has to be shown of both. -/
structure Ledger (B : BarrierFact) (R : Bool → Stage → Stage → Prop) : Prop where
  fresh : ∀ name expected b, B name expected b {}
  later : ∀ {name expected b b' p}, (∀ n, b.count n ≤ b'.count n) →
    B name expected b p → B name expected b' p
  entered : ∀ name expected b, B name expected b
    { released := decide (b.count name ≥ expected), waited := 0, warned := false }
  released : ∀ {name expected b p}, B name expected b p →
    (p.released || decide (b.count name ≥ expected)) = true →
    B name expected b { p with released := true }
  waiting : ∀ {name expected b p} (waited : Float32) (warned : Bool), B name expected b p →
    B name expected b { p with waited, warned }
  same : ∀ {s t : Stage}, t.journal = s.journal → t.barriers = s.barriers → R true s t
  trans : ∀ {s t u : Stage} {ok ok' : Bool}, t.Later u → R ok s t → R ok' t u → R (ok && ok') s u
  halted : ∀ {s t : Stage} {ok : Bool}, R ok s t → R false s t
  note : ∀ (s : Stage) {e : Entry}, e.isOrdinary = true → R true s (s.note e)
  arrive : ∀ (s : Stage) (name : String), R true s (s.arrive name)
  called : ∀ {s : Stage} {σ : Site} {x : Step Command} {c : Call}, s.At σ x →
    (x.isBarrier = true → c = .exit) → R true s (s.note (.called σ c))
  returned : ∀ {s : Stage} {σ : Site} {x : Step Command} {r : Option Status}, s.At σ x →
    (x.isBarrier = true → r = none) → R true s (s.note (.returned σ r))
  entering : ∀ {s : Stage} {σ : Site} {name : String} {expected : UInt32} (n : Notice),
    s.At σ (.barrier name expected) → R true s (s.entering σ name n)
  answering : ∀ {s : Stage} {σ : Site} {name : String} {expected : UInt32} {p : BarrierProgress}
    (dt : Float32) (said : Option Notice), s.At σ (.barrier name expected) →
    B name expected s.barriers p →
    R true s (s.answering σ dt said (p.verdict (s.barriers.count name) expected))

structure Fair (B : BarrierFact) (R : Bool → Stage → Stage → Prop) (ok : Bool)
    (s t : Stage) : Prop where
  holds : t.Holds B
  later : s.Later t
  books : R ok s t

def Act.Obeys {α : Type} (B : BarrierFact) (R : Bool → Stage → Stage → Prop) (act : Act α) :
    Prop := ∀ s, s.Holds B → Fair B R (act s).1.isOk s (act s).2

def Runner.Obeys (B : BarrierFact) (R : Bool → Stage → Stage → Prop) (run : Runner) : Prop :=
  ∀ c, (do let reply ← run c; Act.note (.did c reply)).Obeys B R

namespace Ledger

variable {B : BarrierFact} {R : Bool → Stage → Stage → Prop} {s t u : Stage}

section

variable {b b' : Board}

mutual

theorem step_later (L : Ledger B R) (h : ∀ name, b.count name ≤ b'.count name) :
    (x : Step Command) → (p : x.Progress) → x.Holds B b p → x.Holds B b' p
  | .barrier _ _, _, hp => L.later h hp
  | .choose _ yes no, p, hp =>
    ⟨L.children_later h yes p.yes.children hp.1, L.children_later h no p.no.children hp.2⟩
  | .bounded _ _ steps, p, hp => L.children_later h steps p.body.children hp
  | .retry _ steps, p, hp => L.children_later h steps p.body.children hp
  | .group steps, p, hp => L.children_later h steps p.children hp
  | .parallel _ steps, p, hp => L.lanes_later h steps p hp
  | .wait _, _, _ => trivial
  | .frames _, _, _ => trivial
  | .publish _, _, _ => trivial
  | .invoke _ _, _, _ => trivial
  | .component _ _ _, _, _ => trivial
  | .call _, _, _ => trivial
  | .startSequence _, _, _ => trivial
  | .stopSequence _, _, _ => trivial
  | .tween _, _, _ => trivial
  | .await _ _ _, _, _ => trivial
  | .probe _ _, _, _ => trivial
  | .custom _ _ _ _, _, _ => trivial

theorem children_later (L : Ledger B R) (h : ∀ name, b.count name ≤ b'.count name) :
    (l : List (Step Command)) → (p : Children l) → holdsChildren B l b p → holdsChildren B l b' p
  | [], _, _ => trivial
  | x :: rest, p, hp => ⟨L.step_later h x p.1 hp.1, L.children_later h rest p.2 hp.2⟩

theorem lanes_later (L : Ledger B R) (h : ∀ name, b.count name ≤ b'.count name) :
    (l : List (Step Command)) → (p : Lanes l) → holdsLanes B l b p → holdsLanes B l b' p
  | [], _, _ => trivial
  | x :: rest, p, hp => ⟨L.step_later h x p.1.child hp.1, L.lanes_later h rest p.2 hp.2⟩

end

theorem sequence_later (L : Ledger B R) (h : ∀ name, b.count name ≤ b'.count name)
    {q : Sequence} (hq : q.Holds B b) : q.Holds B b' :=
  fun part hpart => L.step_later h part.step part.progress (hq part hpart)

theorem held_later (L : Ledger B R) (h : ∀ name, b.count name ≤ b'.count name) {x : Held}
    (hx : x.Holds B b) : x.Holds B b' := by
  cases x with
  | part p => exact L.step_later h p.step p.progress hx
  | track t => exact L.children_later h t.steps t.track.children hx
  | sequence q => exact L.sequence_later h hx

end

mutual

theorem step_fresh (L : Ledger B R) (resolve : String → EntityId) (b : Board) :
    (x : Step Command) → x.Holds B b (x.fresh resolve)
  | .barrier name expected => L.fresh name expected b
  | .choose _ yes no => ⟨L.children_fresh resolve b yes, L.children_fresh resolve b no⟩
  | .bounded _ _ steps => L.children_fresh resolve b steps
  | .retry _ steps => L.children_fresh resolve b steps
  | .group steps => L.children_fresh resolve b steps
  | .parallel _ steps => L.lanes_fresh resolve b steps
  | .wait _ => trivial
  | .frames _ => trivial
  | .publish _ => trivial
  | .invoke _ _ => trivial
  | .component _ _ _ => trivial
  | .call _ => trivial
  | .startSequence _ => trivial
  | .stopSequence _ => trivial
  | .tween _ => trivial
  | .await _ _ _ => trivial
  | .probe _ _ => trivial
  | .custom _ _ _ _ => trivial

theorem children_fresh (L : Ledger B R) (resolve : String → EntityId) (b : Board) :
    (l : List (Step Command)) → holdsChildren B l b (freshChildren resolve l)
  | [] => trivial
  | x :: rest => ⟨L.step_fresh resolve b x, L.children_fresh resolve b rest⟩

theorem lanes_fresh (L : Ledger B R) (resolve : String → EntityId) (b : Board) :
    (l : List (Step Command)) → holdsLanes B l b (freshLanes resolve l)
  | [] => trivial
  | x :: rest => ⟨L.step_fresh resolve b x, L.lanes_fresh resolve b rest⟩

end

theorem build (L : Ledger B R) (resolve : String → EntityId) (b : Board) (o : Outline Command) :
    (Sequence.build resolve o).Holds B b := by
  intro part hpart
  obtain ⟨x, -, rfl⟩ := List.mem_map.mp hpart
  exact L.step_fresh resolve b x

/-! Single changes of the stage -/

theorem fair_refl (L : Ledger B R) (h : s.Holds B) : Fair B R true s s :=
  ⟨h, .refl s, L.same rfl rfl⟩

theorem fair_trans (L : Ledger B R) {ok ok' : Bool} (h : Fair B R ok s t)
    (h' : Fair B R ok' t u) : Fair B R (ok && ok') s u :=
  ⟨h'.holds, h.later.trans h'.later, L.trans h'.later h.books h'.books⟩

theorem fair_then (L : Ledger B R) {ok : Bool} (h : Fair B R true s t)
    (h' : Fair B R ok t u) : Fair B R ok s u := L.fair_trans h h'

theorem fair_halted (L : Ledger B R) {ok : Bool} (h : Fair B R ok s t) : Fair B R false s t :=
  ⟨h.holds, h.later, L.halted h.books⟩

/-- Only the books change, as the relation allows. -/
theorem fair_of_books (L : Ledger B R) (h : s.Holds B) (hl : s.Later t)
    (hq : t.sequences = s.sequences) (hh : t.held = s.held) (hR : R true s t) :
    Fair B R true s t where
  holds := by
    constructor
    · intro id
      rw [show t.sequence id = s.sequence id by simp only [Stage.sequence, hq]]
      exact L.sequence_later hl.counts (h.sequences id)
    · intro slot x hx
      rw [hh] at hx
      exact L.held_later hl.counts (h.held slot x hx)
  later := hl
  books := hR

/-- Neither the books nor the steps change. -/
theorem fair_of_same (L : Ledger B R) (h : s.Holds B) (hq : t.sequences = s.sequences)
    (hh : t.held = s.held) (hj : t.journal = s.journal) (hb : t.barriers = s.barriers) :
    Fair B R true s t := L.fair_of_books h (.of_same hq hb) hq hh (L.same hj hb)

theorem fair_note (L : Ledger B R) (h : s.Holds B) {e : Entry} (hR : R true s (s.note e)) :
    Fair B R true s (s.note e) := L.fair_of_books h (.of_same rfl rfl) rfl rfl hR

/-- Somebody arrives at a barrier. -/
theorem later_arrive (s : Stage) (name : String) : s.Later (s.arrive name) := by
  refine ⟨fun other => ?_, Nat.le_refl _, fun _ _ => rfl⟩
  by_cases hn : other = name
  · subst hn
    rw [show (s.arrive other).barriers.count other = Board.bump (s.barriers.count other) from
      Board.count_arrive_self _ _]
    exact Board.bump_le _
  · rw [show (s.arrive name).barriers.count other = s.barriers.count other from
      Board.count_arrive_ne _ hn]
    exact UInt32.le_refl _

theorem fair_modify (L : Ledger B R) (h : s.Holds B) (id : Nat) {f : Sequence → Sequence}
    (hf : ∀ q, (f q).parts = q.parts) : Fair B R true s (s.modify id f) where
  holds := by
    refine ⟨fun i => ?_, h.held⟩
    rw [Sequence.Holds, s.field_modify (·.parts) hf id i]
    exact h.sequences i
  later := by
    have hsteps : ∀ q, (f q).steps = q.steps := fun q => by simp only [Sequence.steps, hf]
    exact ⟨fun _ => UInt32.le_refl _, by simp, fun i _ => s.field_modify Sequence.steps hsteps id i⟩
  books := L.same rfl rfl

theorem fair_enroll (L : Ledger B R) (h : s.Holds B) {q : Sequence} (hq : q.Holds B s.barriers) :
    Fair B R true s (s.enroll q) where
  holds := by
    refine ⟨fun i => ?_, h.held⟩
    rw [Stage.sequence_enroll]
    split
    · exact hq
    · exact h.sequences i
  later := by
    refine ⟨fun _ => UInt32.le_refl _, by simp, fun i hi => ?_⟩
    rw [Stage.sequence_enroll, if_neg (by omega)]
  books := L.same rfl rfl

theorem fair_hold (L : Ledger B R) (h : s.Holds B) {held : Table String Held}
    (hh : ∀ slot x, held.get? slot = some x → x.Holds B s.barriers) :
    Fair B R true s { s with held } :=
  ⟨⟨h.sequences, hh⟩, .of_same rfl rfl, L.same rfl rfl⟩

/-- One of the parts of a sequence is put in the place of another one of the same step. -/
theorem fair_withPart (L : Ledger B R) (h : s.Holds B) {id index : Nat} {part : Part}
    {p : part.step.Progress} (hid : id < s.sequences.length)
    (hpart : (s.sequence id).steps[index]? = some part.step)
    (hp : part.step.Holds B s.barriers p) :
    Fair B R true s (s.returning id index ⟨part.step, p⟩) where
  holds := by
    refine ⟨fun i => ?_, h.held⟩
    by_cases hi : i = id
    · subst hi
      rw [Stage.returning, s.sequence_modify_self _ hid]
      intro x hx
      rcases List.mem_or_eq_of_mem_set hx with hx | rfl
      · exact h.sequences i x hx
      · exact hp
    · rw [Stage.returning, s.sequence_modify_ne _ hi]
      exact h.sequences i
  later := by
    refine ⟨fun _ => UInt32.le_refl _, by simp [Stage.returning], fun i _ => ?_⟩
    by_cases hi : i = id
    · subst hi
      rw [Stage.returning, s.sequence_modify_self _ hid]
      obtain ⟨x, p'⟩ := part
      rw [Sequence.steps, List.getElem?_map, Option.map_eq_some_iff] at hpart
      obtain ⟨old, hold, rfl⟩ := hpart
      exact Sequence.steps_withPart hold p
    · rw [Stage.returning, s.sequence_modify_ne _ hi]
  books := L.same rfl rfl

/-! Acts -/

section

variable (L : Ledger B R) {α β : Type}

include L

theorem pure (a : α) : (pure a : Act α).Obeys B R := fun _ h => L.fair_refl h

theorem read (f : Stage → α) : (Act.read f).Obeys B R := fun _ h => L.fair_refl h

theorem halt (e : Halt) : (Act.halt e : Act α).Obeys B R :=
  fun _ h => L.fair_halted (L.fair_refl h)

theorem noteAct {e : Entry} (he : e.isOrdinary = true) : (Act.note e).Obeys B R :=
  fun s h => L.fair_note h (L.note s he)

theorem say (n : Notice) : (Act.say n).Obeys B R := L.noteAct rfl

theorem changeSame {f : Stage → Stage} (hq : ∀ s, (f s).sequences = s.sequences)
    (hh : ∀ s, (f s).held = s.held) (hj : ∀ s, (f s).journal = s.journal)
    (hb : ∀ s, (f s).barriers = s.barriers) : (Act.change f).Obeys B R :=
  fun s h => L.fair_of_same h (hq s) (hh s) (hj s) (hb s)

theorem modify (id : Nat) {f : Sequence → Sequence} (hf : ∀ q, (f q).parts = q.parts) :
    (Act.change (·.modify id f)).Obeys B R := fun _ h => L.fair_modify h id hf

theorem enlist (id : Nat) : (Act.change (·.enlist id)).Obeys B R :=
  L.changeSame (fun s => s.sequences_enlist id) (fun s => s.held_enlist id)
    (fun s => s.journal_enlist id) fun s => by unfold Stage.enlist; split <;> rfl

theorem delist (id : Nat) : (Act.change (·.delist id)).Obeys B R :=
  L.changeSame (fun _ => rfl) (fun _ => rfl) (fun _ => rfl) fun _ => rfl

theorem onHost (f : Host → Host) : (onHost f).Obeys B R :=
  L.changeSame (fun _ => rfl) (fun _ => rfl) (fun _ => rfl) fun _ => rfl

theorem inScene (f : Scene → α × Scene) : (Act.inScene f).Obeys B R :=
  fun _ h => L.fair_of_same h rfl rfl rfl rfl

theorem bind {x : Act α} {f : α → Act β} (hx : x.Obeys B R) (hf : ∀ a, (f a).Obeys B R) :
    (x >>= f).Obeys B R := by
  intro s h
  have hs := hx s h
  rw [Act.bind_apply]
  rcases hr : x s with ⟨a | a, t⟩ <;> rw [hr] at hs
  · exact hs
  · exact L.fair_then hs (hf a t hs.holds)

omit L in
theorem ite {c : Prop} [Decidable c] {x y : Act α} (hx : x.Obeys B R) (hy : y.Obeys B R) :
    (if c then x else y).Obeys B R := by
  split
  · exact hx
  · exact hy

theorem ask (asker : Asker) (owner : String) (polls : Nat) (c : Condition) :
    (Sequencer.ask asker owner polls c).Obeys B R := by
  refine L.bind (L.read _) fun r => ?_
  cases r with
  | ok answer => exact L.bind (L.noteAct rfl) fun _ => L.pure answer
  | error h => exact L.halt h

/-- A runner whose every command obeys, whatever it is noted as. -/
theorem runner {run : Runner} (h : ∀ c, (run c).Obeys B R) : run.Obeys B R :=
  fun c => L.bind (h c) fun _ => L.noteAct rfl

theorem performAll {run : Runner} (hrun : run.Obeys B R) (l : List Command) :
    (Sequencer.performAll run l).Obeys B R := by
  induction l with
  | nil => exact L.pure ()
  | cons c rest ih =>
    -- the command and the entry that tells of it are taken together
    have hsplit : Sequencer.performAll run (c :: rest) =
        (do let reply ← run c; Act.note (.did c reply)) >>= fun _ =>
          Sequencer.performAll run rest := by
      funext s
      simp only [Sequencer.performAll, Act.bind_apply]
      rcases run c s with ⟨a | a, t⟩ <;> rfl
    rw [hsplit]
    exact L.bind (hrun c) fun _ => ih

end

end Ledger

end Sequencer

import FetchStage.Proofs.Buffer.Ring

/-! # Any sequence of calls on the buffer

Writes, reads, flushes, commits and resets may come in any order and any number of them within a cycle. The reference
queue is a plain list that only a commit or a reset changes, beside what has been staged since. The ring gives the same
answers and shows the same entries after every call, and its pointers and its count stay tied together.
-/
namespace FetchStage.Buffer

inductive Call where
  | write (e : BufferEntry)
  | read
  | flush
  | commit
  | reset
  deriving DecidableEq

/-- What a call returns. -/
inductive Answer where
  | accepted (legal : Bool)
  | head (oldest : Option BufferEntry)
  | done
  deriving DecidableEq

/-- What is shown between two calls. -/
structure View where
  entries : List BufferEntry
  oldest : Option BufferEntry
  full : Bool
  empty : Bool
  occupancy : Nat
  deriving DecidableEq

def call (b : Buffer) : Call → Buffer × Answer
  | .write e => (b.stageWrite e, .accepted b.acceptsWrite)
  | .read => (b.stageRead, .head b.peek)
  | .flush => (b.stageFlush, .done)
  | .commit => (b.commit, .done)
  | .reset => (empty, .done)

def view (b : Buffer) : View := ⟨b.toList, b.peek, b.isFull, b.isEmpty, b.count⟩

/-- The answer to each call, and what is shown after it. -/
def trace (b : Buffer) : List Call → List (Answer × View)
  | [] => []
  | c :: cs => ((b.call c).2, (b.call c).1.view) :: (b.call c).1.trace cs

def after (b : Buffer) (cs : List Call) : Buffer := cs.foldl (fun b c => (b.call c).1) b

/-- A list, and what waits for the next commit. -/
structure Queue where
  entries : List BufferEntry := []
  incoming : Option BufferEntry := none
  leaving : Bool := false
  clearing : Bool := false

namespace Queue

/-- The entries that a commit leaves. The head goes once, however often it was read; clearing leaves nothing. -/
def committed (q : Queue) : List BufferEntry :=
  if q.clearing then [] else (if q.leaving then q.entries.tail else q.entries) ++ q.incoming.toList

def call (q : Queue) : Call → Queue × Answer
  | .write e =>
    if q.entries.length < bufferDepth ∧ q.incoming = none then ({ q with incoming := some e }, .accepted true)
    else (q, .accepted false)
  | .read => ({ q with leaving := q.leaving || !q.entries.isEmpty }, .head q.entries.head?)
  | .flush => ({ q with clearing := true }, .done)
  | .commit => ({ entries := q.committed }, .done)
  | .reset => ({}, .done)

def view (q : Queue) : View :=
  ⟨q.entries, q.entries.head?, decide (q.entries.length = bufferDepth), q.entries.isEmpty, q.entries.length⟩

def trace (q : Queue) : List Call → List (Answer × View)
  | [] => []
  | c :: cs => ((q.call c).2, (q.call c).1.view) :: (q.call c).1.trace cs

end Queue

variable {b : Buffer} {q : Queue}

structure Follows (b : Buffer) (q : Queue) : Prop where
  sound : b.Sound
  entries : b.toList = q.entries
  staged : b.staged = ⟨q.incoming, q.leaving, q.clearing⟩

theorem follows_empty : empty.Follows {} := ⟨settled_empty.toSound, rfl, rfl⟩

theorem Follows.count_eq (h : b.Follows q) : b.count = q.entries.length := by
  rw [← h.entries, length_toList]

theorem Follows.view_eq (h : b.Follows q) : b.view = q.view := by
  unfold Buffer.view Queue.view
  rw [peek_eq_head?, isFull_eq, isEmpty_eq, h.entries, h.count_eq]

theorem Follows.acceptsWrite_iff (h : b.Follows q) :
    b.acceptsWrite ↔ q.entries.length < bufferDepth ∧ q.incoming = none := by
  have hle := h.sound.count_le
  rw [h.count_eq] at hle
  simp only [acceptsWrite, isFull, h.count_eq, h.staged, Bool.and_eq_true, Bool.not_eq_true', beq_eq_false_iff_ne,
    Option.isNone_iff_eq_none]
  constructor <;> rintro ⟨hcount, hnone⟩ <;> exact ⟨by omega, hnone⟩

/-- One call keeps the correspondence and is answered alike. -/
theorem Follows.call (h : b.Follows q) (c : Call) :
    (b.call c).1.Follows (q.call c).1 ∧ (b.call c).2 = (q.call c).2 := by
  cases c with
  | write e =>
    have hsound := h.sound.stageWrite e
    have hentries : (b.stageWrite e).toList = q.entries := (toList_stageWrite e).trans h.entries
    by_cases hw : b.acceptsWrite
    · have hq : q.call (.write e) = ({ q with incoming := some e }, .accepted true) :=
        if_pos (h.acceptsWrite_iff.mp hw)
      rw [hq]
      refine ⟨⟨hsound, hentries, ?_⟩, congrArg Answer.accepted hw⟩
      change (b.stageWrite e).staged = _
      rw [staged_stageWrite, if_pos hw, h.staged]
    · have hq : q.call (.write e) = (q, .accepted false) := if_neg (mt h.acceptsWrite_iff.mpr hw)
      rw [hq]
      refine ⟨⟨hsound, hentries, ?_⟩, congrArg Answer.accepted (Bool.eq_false_iff.mpr hw)⟩
      change (b.stageWrite e).staged = _
      rw [staged_stageWrite, if_neg hw, h.staged]
  | read =>
    have hhead : b.peek = q.entries.head? := by rw [peek_eq_head?, h.entries]
    refine ⟨⟨h.sound.stageRead, toList_stageRead.trans h.entries, ?_⟩, congrArg Answer.head hhead⟩
    change b.stageRead.staged = _
    rw [staged_stageRead, h.staged, isEmpty_eq, h.entries]
    rfl
  | flush =>
    refine ⟨⟨h.sound.stageFlush, h.entries, ?_⟩, rfl⟩
    change { b.staged with flush := true } = _
    rw [h.staged]
    rfl
  | commit =>
    have hset := h.sound.commit
    refine ⟨⟨hset.toSound, ?_, hset.staged_eq⟩, rfl⟩
    change b.commit.toList = q.committed
    rw [toList_commit h.sound, h.staged, h.entries]
    rfl
  | reset => exact ⟨follows_empty, rfl⟩

theorem Follows.trace_eq (h : b.Follows q) (cs : List Call) : b.trace cs = q.trace cs := by
  induction cs generalizing b q with
  | nil => rfl
  | cons c cs ih =>
    obtain ⟨hnext, hanswer⟩ := h.call c
    rw [Buffer.trace, Queue.trace, hanswer, hnext.view_eq, ih hnext]

theorem Follows.sound_after (h : b.Follows q) (cs : List Call) : (b.after cs).Sound := by
  induction cs generalizing b q with
  | nil => exact h.sound
  | cons c cs ih => exact ih (h.call c).1

/-- The call waits for the next commit. -/
def Call.stages : Call → Bool
  | .write _ | .read | .flush => true
  | .commit | .reset => false

theorem view_call {c : Call} (hc : c.stages) : (b.call c).1.view = b.view := by
  cases c with
  | write e =>
    change (b.stageWrite e).view = b.view
    unfold stageWrite
    split <;> rfl
  | read =>
    change b.stageRead.view = b.view
    unfold stageRead
    split <;> rfl
  | flush => rfl
  | commit => cases hc
  | reset => cases hc

/-- Until the next commit or reset the same entries are shown. -/
theorem view_after {cs : List Call} (hc : ∀ c ∈ cs, c.stages) : (b.after cs).view = b.view := by
  induction cs generalizing b with
  | nil => rfl
  | cons c cs ih =>
    have hrest := ih (b := (b.call c).1) fun x hx => hc x (List.mem_cons_of_mem _ hx)
    exact hrest.trans (view_call (hc c List.mem_cons_self))

/-- The pointers, the count and what is staged fit together. A commit moves the count by exactly what it applies, so the
count is not cut off at zero. -/
structure InRange (b : Buffer) : Prop where
  readAt_lt : b.readAt.val < bufferDepth
  writeAt_lt : b.writeAt.val < bufferDepth
  count_le : b.count ≤ bufferDepth
  writeAt_eq : b.writeAt.val = (b.readAt.val + b.count) % bufferDepth
  room : b.staged.write.isSome → b.count < bufferDepth
  stock : b.staged.read → 0 < b.count
  commit_le : b.commit.count ≤ bufferDepth
  commit_eq : (b.commit.count : Int) =
    if b.staged.flush then 0 else b.count + b.staged.write.isSome.toNat - b.staged.read.toNat

theorem Sound.inRange (h : b.Sound) : b.InRange where
  readAt_lt := b.readAt.isLt
  writeAt_lt := b.writeAt.isLt
  count_le := h.count_le
  writeAt_eq := by
    rw [h.tied, ringIndex, Fin.val_add, Fin.val_ofNat, Nat.add_mod_mod]
  room := h.room
  stock := h.stock
  commit_le := count_commit_le h
  commit_eq := by
    cases hf : b.staged.flush with
    | true =>
      have hzero : b.commit.count = 0 := by simp [Buffer.commit, hf]
      rw [hzero]
      rfl
    | false =>
      have hcount := count_commit h hf
      rw [if_neg Bool.false_ne_true]
      omega

/-- After any calls the ring is in range, and it has answered and shown what the queue has. Calls that wait for the next
commit leave the entries and the head as they are. -/
theorem trace_eq_queue (cs : List Call) :
    (empty.after cs).InRange ∧ empty.trace cs = Queue.trace {} cs ∧
    ∀ more : List Call, (∀ c ∈ more, c.stages) →
      ((empty.after cs).after more).toList = (empty.after cs).toList ∧
      (((empty.after cs).after more).call .read).2 = .head (empty.after cs).toList.head? := by
  refine ⟨(follows_empty.sound_after cs).inRange, follows_empty.trace_eq cs, ?_⟩
  intro more hmore
  have hview := view_after (b := empty.after cs) hmore
  have hentries := congrArg View.entries hview
  refine ⟨hentries, ?_⟩
  change Answer.head _ = _
  rw [peek_eq_head?]
  exact congrArg (fun l => Answer.head l.head?) hentries

/-- Two entries are stored. Within the next cycle the head is read twice, around a second write that is refused. -/
theorem trace_eq_queue_twice :
    ∃ cs more : List Call,
      cs = [.write ⟨0, 0x13⟩, .commit, .write ⟨4, 0x93⟩, .commit] ∧
      more = [.read, .write ⟨8, 0x113⟩, .write ⟨12, 0x193⟩, .read] ∧ (∀ c ∈ more, c.stages) ∧
      ((empty.after cs).after more).toList = [⟨0, 0x13⟩, ⟨4, 0x93⟩] ∧
      (((empty.after cs).after more).call .read).2 = .head (some ⟨0, 0x13⟩) := by
  have hstages : ∀ c ∈ [Call.read, .write ⟨8, 0x113⟩, .write ⟨12, 0x193⟩, .read], c.stages := by decide
  have hkept := (trace_eq_queue [.write ⟨0, 0x13⟩, .commit, .write ⟨4, 0x93⟩, .commit]).2.2 _ hstages
  exact ⟨_, _, rfl, rfl, hstages, hkept.1, hkept.2⟩

end FetchStage.Buffer

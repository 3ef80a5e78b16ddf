import Augusta.Core.Command
import Augusta.Host.Misbehaviour
import Augusta.Lib.Table

/-! `augusta::host::AdmissionDeadlines` and `PeerGate`: what a server keeps of a peer before and
    around what it asks for.

      connected ─▶ deadline ─▶ admitted │ overdue ─▶ expelled      judged ─▶ misbehaving ─▶ expelled
      left      ─▶ nothing of it is kept                           endRound ─▶ no one is expelled

    Times are nanoseconds of the caller's clock. -/

namespace Augusta.Host
open Lib (Table)

/-- 30 seconds. -/
def kAdmissionDeadline : ℤ := 30000000000

structure AdmissionDeadlines where
  /-- When each peer not yet admitted connected. -/
  connectedAt : Table PeerId ℤ := ∅

namespace AdmissionDeadlines
variable (deadlines : AdmissionDeadlines)

def connected (peer : PeerId) (now : ℤ) : AdmissionDeadlines :=
  ⟨deadlines.connectedAt.insert peer now⟩

def admitted (peer : PeerId) : AdmissionDeadlines := ⟨deadlines.connectedAt.erase peer⟩

def left (peer : PeerId) : AdmissionDeadlines := ⟨deadlines.connectedAt.erase peer⟩

/-- `TakeOverdue`: the peers due at `now`, each once. -/
def takeOverdue (now : ℤ) : List PeerId × AdmissionDeadlines :=
  ((deadlines.connectedAt.filter fun _ connectedAt =>
      !decide (now - connectedAt < kAdmissionDeadline)).keys,
    ⟨deadlines.connectedAt.filter fun _ connectedAt =>
      decide (now - connectedAt < kAdmissionDeadline)⟩)

end AdmissionDeadlines

structure PeerGate where
  misbehaviour : Table PeerId MisbehaviourTracker := ∅
  /-- Those expelled in the round under way. -/
  expelled : List PeerId := []
  admissionDeadlines : AdmissionDeadlines := {}

namespace PeerGate
variable (gate : PeerGate)

def connected (peer : PeerId) (now : ℤ) : PeerGate :=
  { gate with admissionDeadlines := gate.admissionDeadlines.connected peer now }

def admitted (peer : PeerId) : PeerGate :=
  { gate with admissionDeadlines := gate.admissionDeadlines.admitted peer }

/-- `Left`: everything of `peer` is forgotten. -/
def left (peer : PeerId) : PeerGate :=
  { gate with
    misbehaviour := gate.misbehaviour.erase peer
    admissionDeadlines := gate.admissionDeadlines.left peer }

def judge (peer : PeerId) (rejection : PeerRejection) (now : ℤ) : Verdict × PeerGate :=
  let (verdict, tracker) := ((gate.misbehaviour.lookup peer).getD {}).record rejection now
  (verdict, { gate with misbehaviour := gate.misbehaviour.insert peer tracker })

/-- `Expelled`: what `peer` sends later this round is ignored. -/
def expel (peer : PeerId) : PeerGate := { gate with expelled := peer :: gate.expelled }

def wasExpelled (peer : PeerId) : Bool := gate.expelled.contains peer

def takeOverdue (now : ℤ) : List PeerId × PeerGate :=
  let (overdue, admissionDeadlines) := gate.admissionDeadlines.takeOverdue now
  (overdue, { gate with admissionDeadlines })

def endRound : PeerGate := { gate with expelled := [] }

/-- Whether anything of `peer` is kept past the round. -/
def Knows (peer : PeerId) : Prop :=
  peer ∈ gate.misbehaviour ∨ peer ∈ gate.admissionDeadlines.connectedAt

/-- When `peer`, not yet admitted, connected. -/
def waitingSince (peer : PeerId) : Option ℤ := gate.admissionDeadlines.connectedAt.lookup peer

/-! ### What is kept of a peer after each -/

variable {gate} {peer other : PeerId}

theorem not_knows_left : ¬ (gate.left peer).Knows peer := by
  rintro (h | h)
  · exact (AList.mem_erase.mp h).1 rfl
  · exact (AList.mem_erase.mp h).1 rfl

theorem knows_left : (gate.left peer).Knows other → gate.Knows other := by
  rintro (h | h)
  · exact .inl (AList.mem_erase.mp h).2
  · exact .inr (AList.mem_erase.mp h).2

theorem knows_judge {rejection : PeerRejection} {now : ℤ} :
    (gate.judge peer rejection now).2.Knows other → other = peer ∨ gate.Knows other := by
  rintro (h | h)
  · rcases (AList.mem_insert _).mp h with hsame | hold
    · exact .inl hsame
    · exact .inr (.inl hold)
  · exact .inr (.inr h)

theorem knows_connected {now : ℤ} :
    (gate.connected peer now).Knows other → other = peer ∨ gate.Knows other := by
  rintro (h | h)
  · exact .inr (.inl h)
  · rcases (AList.mem_insert _).mp h with hsame | hold
    · exact .inl hsame
    · exact .inr (.inr hold)

theorem knows_admitted : (gate.admitted peer).Knows other → gate.Knows other := by
  rintro (h | h)
  · exact .inl h
  · exact .inr (AList.mem_erase.mp h).2

theorem knows_takeOverdue {now : ℤ} : (gate.takeOverdue now).2.Knows other → gate.Knows other := by
  rintro (h | h)
  · exact .inl h
  · obtain ⟨since, hsince⟩ := AList.mem_iff_lookup.mp h
    simp only [takeOverdue, AdmissionDeadlines.takeOverdue, AList.lookup_filter] at hsince
    exact .inr (AList.mem_iff_lookup.mpr ⟨since, (Option.filter_eq_some_iff.mp hsince).1⟩)

@[simp] theorem waitingSince_connected {now : ℤ} :
    (gate.connected peer now).waitingSince other =
      if other = peer then some now else gate.waitingSince other :=
  AList.lookup_insert_eq ..

@[simp] theorem waitingSince_admitted : (gate.admitted peer).waitingSince other =
    if other = peer then none else gate.waitingSince other :=
  AList.lookup_erase_eq ..

@[simp] theorem waitingSince_left : (gate.left peer).waitingSince other =
    if other = peer then none else gate.waitingSince other :=
  AList.lookup_erase_eq ..

@[simp] theorem waitingSince_judge {rejection : PeerRejection} {now : ℤ} :
    (gate.judge peer rejection now).2.waitingSince other = gate.waitingSince other := rfl

@[simp] theorem waitingSince_expel : (gate.expel peer).waitingSince other = gate.waitingSince other :=
  rfl

/-- Those due are taken out, and those left are not due. -/
theorem waitingSince_takeOverdue {now since : ℤ} :
    (gate.takeOverdue now).2.waitingSince other = some since ↔
      gate.waitingSince other = some since ∧ now - since < kAdmissionDeadline := by
  simp only [waitingSince, takeOverdue, AdmissionDeadlines.takeOverdue, AList.lookup_filter,
    Option.filter_eq_some_iff, decide_eq_true_eq]

theorem mem_takeOverdue {now : ℤ} : other ∈ (gate.takeOverdue now).1 ↔
    ∃ since, gate.waitingSince other = some since ∧ kAdmissionDeadline ≤ now - since := by
  simp only [takeOverdue, AdmissionDeadlines.takeOverdue]
  rw [← AList.mem_keys, AList.mem_iff_lookup]
  simp only [AList.lookup_filter, Option.filter_eq_some_iff, waitingSince, Bool.not_eq_true',
    decide_eq_false_iff_not, not_lt]

end PeerGate
end Augusta.Host

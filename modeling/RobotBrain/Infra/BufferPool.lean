import RobotBrain.Library.Machine
import RobotBrain.Brain.State
import Mathlib.Data.List.Perm.Basic

/-!
# The buffer pool

`BufferPool` lends buffers. A loan of a buffer of the pool has a deleter that puts it back; when the
pool is exhausted the loan is a new buffer, and its deleter frees it. Loans come back in any order,
and a borrower may write to its buffer and resize it.

A buffer is known by its address. The allocator gives a new buffer an address that no live buffer
has.

## Main definitions

* `Buffer`, `Loan`, `BufferPool`, `PoolCall`, `PoolAction`.
* `bufferPool` — the pool with its borrowers as a machine.
* `BufferPool.Conserved` — the invariant.

## Main results

* `BufferPool.conserved_of_reaches` — the invariant holds in every run.
* `buffer_pool_conservation` — no buffer is lost, shared or added.
* `BufferPool.acquire_tensorPool`, `BufferPool.giveBack_tensorPool` — the pool of the brain is this
  one without the addresses.
-/

namespace RobotBrain

variable {T : Type*}

/-- A `std::vector` on the heap. -/
structure Buffer (T : Type*) where
  address : ℕ
  data : List T
  deriving DecidableEq

/-- A buffer that has been lent, and whether its deleter is the one that puts it back. -/
structure Loan (T : Type*) where
  buffer : Buffer T
  pooled : Bool
  deriving DecidableEq

/-- The contents of the buffer at the address become `data`. -/
def Loan.write (address : ℕ) (data : List T) (l : Loan T) : Loan T :=
  if l.buffer.address = address then { l with buffer := { l.buffer with data := data } } else l

@[simp] theorem Loan.write_address (address : ℕ) (data : List T) (l : Loan T) :
    (l.write address data).buffer.address = l.buffer.address := by
  unfold Loan.write
  split_ifs <;> rfl

@[simp] theorem Loan.write_pooled (address : ℕ) (data : List T) (l : Loan T) :
    (l.write address data).pooled = l.pooled := by
  unfold Loan.write
  split_ifs <;> rfl

/-- The members of `BufferPool`, with the top of the stack first, and the outstanding loans. -/
structure BufferPool (T : Type*) where
  elementSize : ℕ
  pool : List (Buffer T)
  alive : Bool
  loans : List (Loan T)

/-- The inputs of the pool. -/
inductive PoolCall (T : Type*)
  /-- `Acquire`; the address that the allocator has for a new buffer, should one be needed. -/
  | acquire (fresh : ℕ)
  /-- A borrower changes the contents of its buffer. -/
  | write (address : ℕ) (data : List T)
  /-- A loan ends. -/
  | giveBack (address : ℕ)

/-- The observable actions of the pool. -/
inductive PoolAction (T : Type*)
  | lent (loan : Loan T)
  | written (address : ℕ) (data : List T)
  /-- A buffer has been put back. -/
  | returned (address : ℕ)
  /-- A buffer has been deleted. -/
  | freed (address : ℕ)
  deriving DecidableEq

namespace BufferPool

/-- The state and the actions after a step. -/
abbrev Next (T : Type*) := Option (BufferPool T × List (PoolAction T))

/-- `BufferPool(count, size)`, whose buffers have the given addresses and are filled with `zero`. -/
def initial (zero : T) (addresses : List ℕ) (size : ℕ) : BufferPool T where
  elementSize := size
  pool := addresses.map fun a => ⟨a, List.replicate size zero⟩
  alive := true
  loans := []

/-- The buffers that exist. -/
def buffers (s : BufferPool T) : List (Buffer T) := s.pool ++ s.loans.map Loan.buffer

/-- The addresses that are taken. -/
def live (s : BufferPool T) : List ℕ := s.buffers.map Buffer.address

/-- The outstanding loans of buffers of the pool. -/
def ownedLoans (s : BufferPool T) : List (Loan T) := s.loans.filter Loan.pooled

/-- The addresses of the buffers of the pool, lent or not. -/
def owned (s : BufferPool T) : List ℕ :=
  s.pool.map Buffer.address ++ s.ownedLoans.map fun l => l.buffer.address

/-- A loan begins. -/
def lend (loan : Loan T) (s : BufferPool T) : BufferPool T := { s with loans := loan :: s.loans }

/-- `BufferPool::Acquire`. -/
def acquire (zero : T) (fresh : ℕ) (s : BufferPool T) : Next T :=
  match s.pool with
  | [] =>
    if fresh ∈ s.live then none
    else
      let loan : Loan T := ⟨⟨fresh, List.replicate s.elementSize zero⟩, false⟩
      some (s.lend loan, [.lent loan])
  | buffer :: rest =>
    some ({ s with pool := rest }.lend ⟨buffer, true⟩, [.lent ⟨buffer, true⟩])

/-- A borrower changes the contents of its buffer. -/
def write (address : ℕ) (data : List T) (s : BufferPool T) : Next T :=
  if ∃ l ∈ s.loans, l.buffer.address = address then
    some ({ s with loans := s.loans.map (Loan.write address data) }, [.written address data])
  else none

/-- The end of a loan, which runs the deleter that the loan was made with. -/
def giveBack (address : ℕ) (s : BufferPool T) : Next T :=
  match s.loans.find? fun l => l.buffer.address = address with
  | none => none
  | some loan =>
    let rest := { s with loans := s.loans.eraseP fun l => l.buffer.address = address }
    if loan.pooled then
      if s.alive then some ({ rest with pool := loan.buffer :: s.pool }, [.returned address])
      else some (rest, [.freed address])
    else some (rest, [.freed address])

/-- One step of the pool and its borrowers. -/
def step (zero : T) (s : BufferPool T) : PoolCall T → Next T
  | .acquire fresh => s.acquire zero fresh
  | .write address data => s.write address data
  | .giveBack address => s.giveBack address

/-! ### What a step can do -/

/-- The results of a step. -/
inductive StepResult (zero : T) (s : BufferPool T) :
    PoolCall T → BufferPool T × List (PoolAction T) → Prop
  | lent {fresh : ℕ} {buffer : Buffer T} {rest : List (Buffer T)}
      (hpool : s.pool = buffer :: rest) : StepResult zero s (.acquire fresh)
        ({ s with pool := rest }.lend ⟨buffer, true⟩, [.lent ⟨buffer, true⟩])
  | temporary {fresh : ℕ} (hpool : s.pool = []) (hfresh : fresh ∉ s.live) :
      StepResult zero s (.acquire fresh)
        (s.lend ⟨⟨fresh, List.replicate s.elementSize zero⟩, false⟩,
          [.lent ⟨⟨fresh, List.replicate s.elementSize zero⟩, false⟩])
  | written {address : ℕ} {data : List T} : StepResult zero s (.write address data)
      ({ s with loans := s.loans.map (Loan.write address data) }, [.written address data])
  | returned {before after : List (Loan T)} {loan : Loan T}
      (hloans : s.loans = before ++ loan :: after) (hpooled : loan.pooled = true) :
      StepResult zero s (.giveBack loan.buffer.address)
        ({ s with loans := before ++ after, pool := loan.buffer :: s.pool },
          [.returned loan.buffer.address])
  | freed {before after : List (Loan T)} {loan : Loan T}
      (hloans : s.loans = before ++ loan :: after) (hdead : loan.pooled = true → s.alive = false) :
      StepResult zero s (.giveBack loan.buffer.address)
        ({ s with loans := before ++ after }, [.freed loan.buffer.address])

variable {zero : T} {s s' : BufferPool T}

/-- The loan that ends is taken out of the outstanding ones. -/
theorem exists_eraseP_eq {address : ℕ} {loan : Loan T}
    (h : (s.loans.find? fun l => l.buffer.address = address) = some loan) :
    ∃ before after, s.loans = before ++ loan :: after ∧ loan.buffer.address = address ∧
      (s.loans.eraseP fun l => l.buffer.address = address) = before ++ after := by
  obtain ⟨haddress, before, after, hloans, hbefore⟩ := List.find?_eq_some_iff_append.mp h
  refine ⟨before, after, hloans, of_decide_eq_true haddress, ?_⟩
  rw [hloans, List.eraseP_append_right _ fun l hl => by simpa using hbefore l hl]
  exact congrArg (before ++ ·) (List.eraseP_cons_of_pos haddress)

theorem stepResult {e : PoolCall T} {r : BufferPool T × List (PoolAction T)}
    (h : s.step zero e = some r) : StepResult zero s e r := by
  cases e with
  | acquire fresh =>
    simp only [step, acquire] at h
    cases hpool : s.pool with
    | nil =>
      simp only [hpool] at h
      split_ifs at h with hfresh
      obtain rfl := Option.some.inj h
      exact .temporary hpool hfresh
    | cons buffer rest =>
      simp only [hpool] at h
      obtain rfl := Option.some.inj h
      exact .lent hpool
  | write address data =>
    simp only [step, write] at h
    split_ifs at h
    obtain rfl := Option.some.inj h
    exact .written
  | giveBack address =>
    simp only [step, giveBack] at h
    cases hfind : s.loans.find? fun l => l.buffer.address = address with
    | none => simp [hfind] at h
    | some loan =>
      obtain ⟨before, after, hloans, rfl, herase⟩ := exists_eraseP_eq hfind
      simp only [hfind, herase] at h
      split_ifs at h with hpooled halive
      · obtain rfl := Option.some.inj h
        exact .returned hloans hpooled
      · obtain rfl := Option.some.inj h
        exact .freed hloans fun _ => Bool.eq_false_iff.mpr halive
      · obtain rfl := Option.some.inj h
        exact .freed hloans fun hpooled' => absurd hpooled' hpooled

/-! ### Conservation -/

/-- No borrower has given a buffer at the address another size. -/
def KeepsSize (size : ℕ) (tr : List (PoolAction T)) (address : ℕ) : Prop :=
  ∀ data, .written address data ∈ tr → data.length = size

/-- The buffers of the pool, lent or not, are the original ones, and no two buffers share an
address. -/
structure Conserved (addresses : List ℕ) (size : ℕ) (s : BufferPool T) (tr : List (PoolAction T)) :
    Prop where
  alive : s.alive = true
  elementSize : s.elementSize = size
  owned : s.owned.Perm addresses
  distinct : s.live.Nodup
  sized : ∀ b ∈ s.buffers, KeepsSize size tr b.address → b.data.length = size

variable {addresses : List ℕ} {size : ℕ} {tr out : List (PoolAction T)}

theorem KeepsSize.of_append {address : ℕ} (h : KeepsSize size (tr ++ out) address) :
    KeepsSize size tr address :=
  fun data hdata => h data (List.mem_append_left out hdata)

/-- Moving buffers around conserves them. -/
theorem Conserved.of_perm (hI : s.Conserved addresses size tr) (halive : s'.alive = s.alive)
    (hsize : s'.elementSize = s.elementSize) (hbuffers : s'.buffers.Perm s.buffers)
    (howned : s'.owned.Perm s.owned) : s'.Conserved addresses size (tr ++ out) where
  alive := halive.trans hI.alive
  elementSize := hsize.trans hI.elementSize
  owned := howned.trans hI.owned
  distinct := (hbuffers.map Buffer.address).nodup_iff.mpr hI.distinct
  sized b hb hkeeps := hI.sized b (hbuffers.mem_iff.mp hb) hkeeps.of_append

/-- The first buffer of the pool is lent. -/
theorem Conserved.lent (hI : s.Conserved addresses size tr) {buffer : Buffer T}
    {rest : List (Buffer T)} (hpool : s.pool = buffer :: rest) :
    ({ s with pool := rest }.lend ⟨buffer, true⟩).Conserved addresses size (tr ++ out) := by
  refine hI.of_perm rfl rfl ?_ ?_
  · show (rest ++ buffer :: s.loans.map Loan.buffer).Perm (s.pool ++ s.loans.map Loan.buffer)
    rw [hpool]
    exact List.perm_middle
  · show (rest.map Buffer.address ++ buffer.address :: s.ownedLoans.map _).Perm
      (s.pool.map Buffer.address ++ s.ownedLoans.map _)
    rw [hpool]
    exact List.perm_middle

/-- A new buffer is lent. -/
theorem Conserved.temporary (hI : s.Conserved addresses size tr) {fresh : ℕ}
    (hfresh : fresh ∉ s.live) :
    (s.lend ⟨⟨fresh, List.replicate s.elementSize zero⟩, false⟩).Conserved addresses size
      (tr ++ out) := by
  have hbuffers : (s.lend ⟨⟨fresh, List.replicate s.elementSize zero⟩, false⟩).buffers.Perm
      (⟨fresh, List.replicate s.elementSize zero⟩ :: s.buffers) :=
    List.perm_middle
  refine ⟨hI.alive, hI.elementSize, hI.owned, ?_, fun b hb hkeeps => ?_⟩
  · rw [live, (hbuffers.map Buffer.address).nodup_iff, List.map_cons, List.nodup_cons]
    exact ⟨hfresh, hI.distinct⟩
  · rcases List.mem_cons.mp (hbuffers.mem_iff.mp hb) with rfl | hb
    · rw [List.length_replicate, hI.elementSize]
    · exact hI.sized b hb hkeeps.of_append

/-- Writing moves no buffer. -/
theorem Conserved.written (hI : s.Conserved addresses size tr) {address : ℕ} {data : List T} :
    Conserved addresses size { s with loans := s.loans.map (Loan.write address data) }
      (tr ++ [.written address data]) := by
  have hlive : live { s with loans := s.loans.map (Loan.write address data) } = s.live := by
    simp only [live, buffers, List.map_append, List.map_map, Function.comp_def,
      Loan.write_address]
  have howned : BufferPool.owned { s with loans := s.loans.map (Loan.write address data) } =
      s.owned := by
    simp only [BufferPool.owned, ownedLoans, List.filter_map, List.map_map, Function.comp_def,
      Loan.write_address, Loan.write_pooled]
  refine ⟨hI.alive, hI.elementSize, ?_, ?_, fun b hb hkeeps => ?_⟩
  · rw [howned]
    exact hI.owned
  · rw [hlive]
    exact hI.distinct
  · rcases List.mem_append.mp hb with hb | hb
    · exact hI.sized b (List.mem_append_left _ hb) hkeeps.of_append
    · simp only [List.map_map, List.mem_map, Function.comp_apply] at hb
      obtain ⟨l, hl, rfl⟩ := hb
      rw [Loan.write_address] at hkeeps
      unfold Loan.write
      split_ifs with haddress
      · refine hkeeps data (List.mem_append_right _ ?_)
        rw [haddress]
        exact List.mem_cons_self
      · exact hI.sized _ (List.mem_append_right _ (List.mem_map_of_mem hl)) hkeeps.of_append

theorem perm_loans {before after : List (Loan T)} {loan : Loan T}
    (hloans : s.loans = before ++ loan :: after) : (loan :: (before ++ after)).Perm s.loans := by
  rw [hloans]
  exact List.perm_middle.symm

/-- Without a loan the buffers are the others. -/
theorem perm_buffers {before after : List (Loan T)} {loan : Loan T}
    (hloans : s.loans = before ++ loan :: after) :
    (loan.buffer :: buffers { s with loans := before ++ after }).Perm s.buffers :=
  List.perm_middle.symm.trans (((perm_loans hloans).map Loan.buffer).append_left s.pool)

/-- A buffer of the pool comes back. -/
theorem Conserved.returned (hI : s.Conserved addresses size tr) {before after : List (Loan T)}
    {loan : Loan T} (hloans : s.loans = before ++ loan :: after) (hpooled : loan.pooled = true) :
    Conserved addresses size { s with loans := before ++ after, pool := loan.buffer :: s.pool }
      (tr ++ out) := by
  have hlent : (loan :: (before ++ after).filter Loan.pooled).Perm s.ownedLoans := by
    have hfilter := (perm_loans hloans).filter Loan.pooled
    rwa [List.filter_cons_of_pos hpooled] at hfilter
  have hmap := (hlent.map fun l => l.buffer.address).append_left (s.pool.map Buffer.address)
  rw [List.map_cons] at hmap
  exact hI.of_perm rfl rfl (perm_buffers hloans) (List.perm_middle.symm.trans hmap)

/-- A new buffer is deleted. -/
theorem Conserved.freed (hI : s.Conserved addresses size tr) {before after : List (Loan T)}
    {loan : Loan T} (hloans : s.loans = before ++ loan :: after) (hpooled : loan.pooled = false) :
    Conserved addresses size { s with loans := before ++ after } (tr ++ out) := by
  have hlent : ((before ++ after).filter Loan.pooled).Perm s.ownedLoans := by
    have hfilter := (perm_loans hloans).filter Loan.pooled
    rwa [List.filter_cons_of_neg (by rw [hpooled]; decide)] at hfilter
  have hbuffers := perm_buffers hloans
  refine ⟨hI.alive, hI.elementSize, ?_, ?_, fun b hb hkeeps => ?_⟩
  · exact ((hlent.map fun l => l.buffer.address).append_left _).trans hI.owned
  · have hnodup := (hbuffers.map Buffer.address).nodup_iff.mpr hI.distinct
    exact (List.nodup_cons.mp hnodup).2
  · exact hI.sized b (hbuffers.mem_iff.mp (List.mem_cons_of_mem _ hb)) hkeeps.of_append

theorem Conserved.step (hI : s.Conserved addresses size tr) {e : PoolCall T}
    {r : BufferPool T × List (PoolAction T)} (h : StepResult zero s e r) :
    r.1.Conserved addresses size (tr ++ r.2) := by
  cases h with
  | lent hpool => exact hI.lent hpool
  | temporary hpool hfresh => exact hI.temporary hfresh
  | written => exact hI.written
  | returned hloans hpooled => exact hI.returned hloans hpooled
  | @freed before after loan hloans hdead =>
    refine hI.freed hloans (Bool.eq_false_iff.mpr fun hpooled => ?_)
    have halive := hdead hpooled
    rw [hI.alive] at halive
    cases halive

end BufferPool

/-- The pool with its borrowers as a machine. -/
def bufferPool (zero : T) (addresses : List ℕ) (size : ℕ) :
    Machine (BufferPool T) (PoolCall T) (PoolAction T) where
  init := .initial zero addresses size
  step s e := s.step zero e

namespace BufferPool

variable {zero : T} {addresses : List ℕ} {size : ℕ} {es : List (PoolCall T)} {s : BufferPool T}
  {tr : List (PoolAction T)}

theorem live_initial : (initial zero addresses size).live = addresses := by
  simp only [live, buffers, initial, List.map_nil, List.append_nil, List.map_map,
    Function.comp_def, List.map_id']

theorem owned_initial : (initial zero addresses size).owned = addresses := by
  simp only [owned, ownedLoans, initial, List.filter_nil, List.map_nil, List.append_nil,
    List.map_map, Function.comp_def, List.map_id']

/-- The new pool is conserved. -/
theorem conserved_initial (hdistinct : addresses.Nodup) :
    (initial zero addresses size).Conserved addresses size [] := by
  refine ⟨rfl, rfl, ?_, ?_, fun b hb _ => ?_⟩
  · rw [owned_initial]
  · rw [live_initial]
    exact hdistinct
  · simp only [buffers, initial, List.map_nil, List.append_nil, List.mem_map] at hb
    obtain ⟨a, -, rfl⟩ := hb
    exact List.length_replicate

theorem conserved_of_reaches {ok : BufferPool T → List (PoolAction T) → PoolCall T → Prop}
    (hdistinct : addresses.Nodup) (h : (bufferPool zero addresses size).Reaches ok es s tr) :
    s.Conserved addresses size tr := by
  refine h.invariant (fun s tr => s.Conserved addresses size tr) (conserved_initial hdistinct) ?_
  exact fun _ hI _ hs => hI.step (stepResult hs)

/-- The addresses of the pool and of the loans are distinct. -/
theorem Conserved.nodup (hI : s.Conserved addresses size tr) :
    (s.pool.map Buffer.address ++ s.loans.map fun l => l.buffer.address).Nodup := by
  have hlive := hI.distinct
  rwa [live, buffers, List.map_append, List.map_map] at hlive

/-- Outstanding loans are known by their addresses. -/
theorem Conserved.loan_eq (hI : s.Conserved addresses size tr) {l l' : Loan T} (hl : l ∈ s.loans)
    (hl' : l' ∈ s.loans) (haddress : l.buffer.address = l'.buffer.address) : l = l' :=
  List.inj_on_of_nodup_map (List.nodup_append.mp hI.nodup).2.1 hl hl' haddress

theorem Conserved.find?_eq (hI : s.Conserved addresses size tr) {l : Loan T} (hl : l ∈ s.loans) :
    (s.loans.find? fun l' => l'.buffer.address = l.buffer.address) = some l := by
  cases hfind : s.loans.find? fun l' => l'.buffer.address = l.buffer.address with
  | none => simpa using List.find?_eq_none.mp hfind l hl
  | some l' =>
    have haddress : l'.buffer.address = l.buffer.address := by simpa using List.find?_some hfind
    rw [hI.loan_eq (List.mem_of_find?_eq_some hfind) hl haddress]

/-- A loan of a new buffer has an address that no buffer of the pool has. -/
theorem Conserved.not_mem_of_temporary (hI : s.Conserved addresses size tr) {l : Loan T}
    (hl : l ∈ s.loans) (hpooled : l.pooled = false) : l.buffer.address ∉ addresses := by
  intro hmem
  rw [← hI.owned.mem_iff, BufferPool.owned, List.mem_append] at hmem
  rcases hmem with hmem | hmem
  · have hmem' : l.buffer.address ∈ s.loans.map fun l => l.buffer.address :=
      List.mem_map_of_mem (f := fun l : Loan T => l.buffer.address) hl
    exact (List.nodup_append.mp hI.nodup).2.2 _ hmem _ hmem' rfl
  · obtain ⟨l', hl', haddress⟩ := List.mem_map.mp hmem
    obtain ⟨hl', hpooled'⟩ := List.mem_filter.mp hl'
    obtain rfl := hI.loan_eq hl' hl haddress
    rw [hpooled] at hpooled'
    cases hpooled'

/-- The end of a loan of a buffer of the pool puts the buffer back. -/
theorem Conserved.exists_returned (hI : s.Conserved addresses size tr) {l : Loan T}
    (hl : l ∈ s.loans) (hpooled : l.pooled = true) :
    ∃ s', s.step zero (.giveBack l.buffer.address) = some (s', [.returned l.buffer.address]) ∧
      s'.pool = l.buffer :: s.pool := by
  obtain ⟨before, after, -, -, herase⟩ := exists_eraseP_eq (hI.find?_eq hl)
  refine ⟨{ s with loans := before ++ after, pool := l.buffer :: s.pool }, ?_, rfl⟩
  simp only [BufferPool.step, giveBack, hI.find?_eq hl, herase, hpooled, hI.alive, if_true]

/-- The end of a loan of a new buffer frees the buffer and leaves the pool as it is. -/
theorem Conserved.exists_freed (hI : s.Conserved addresses size tr) {l : Loan T}
    (hl : l ∈ s.loans) (hpooled : l.pooled = false) :
    ∃ s', s.step zero (.giveBack l.buffer.address) = some (s', [.freed l.buffer.address]) ∧
      s'.pool = s.pool ∧ l.buffer.address ∉ s'.live := by
  obtain ⟨before, after, hloans, -, herase⟩ := exists_eraseP_eq (hI.find?_eq hl)
  refine ⟨{ s with loans := before ++ after }, ?_, rfl, ?_⟩
  · simp only [BufferPool.step, giveBack, hI.find?_eq hl, herase, hpooled, Bool.false_eq_true,
      if_false]
  · have hnodup := ((perm_buffers hloans).map Buffer.address).nodup_iff.mpr hI.distinct
    exact (List.nodup_cons.mp hnodup).1

end BufferPool

/-- In every run of a pool of `addresses.length` buffers with `size` elements, with any number of
simultaneous loans that end in any order:

* all buffers, lent or in the pool, are distinct;
* the buffers in the pool and the outstanding loans of buffers of the pool are together as many as
  at the beginning;
* the end of a loan of a buffer of the pool puts it back, and the end of a loan of a temporary
  buffer, which is none of the original ones, frees it and leaves the pool as it is;
* every buffer in the pool is an original one;
* when all loans have ended the pool holds exactly the original buffers, and each that no borrower
  has resized has `size` elements. -/
theorem buffer_pool_conservation {zero : T} {addresses : List ℕ} {size : ℕ}
    (hdistinct : addresses.Nodup) {es : List (PoolCall T)} {s : BufferPool T}
    {tr : List (PoolAction T)} (h : (bufferPool zero addresses size).Run es s tr) :
    s.live.Nodup ∧ s.pool.length + s.ownedLoans.length = addresses.length ∧
      (∀ l ∈ s.loans, l.pooled = true → ∃ s',
        s.step zero (.giveBack l.buffer.address) = some (s', [.returned l.buffer.address]) ∧
          s'.pool = l.buffer :: s.pool) ∧
      (∀ l ∈ s.loans, l.pooled = false → l.buffer.address ∉ addresses ∧ ∃ s',
        s.step zero (.giveBack l.buffer.address) = some (s', [.freed l.buffer.address]) ∧
          s'.pool = s.pool ∧ l.buffer.address ∉ s'.live) ∧
      (∀ b ∈ s.pool, b.address ∈ addresses) ∧
      (s.loans = [] → (s.pool.map Buffer.address).Perm addresses ∧
        s.pool.length = addresses.length ∧
        ∀ b ∈ s.pool, (∀ data, .written b.address data ∈ tr → data.length = size) →
          b.data.length = size) := by
  have hI := BufferPool.conserved_of_reaches hdistinct h
  have hcount : s.pool.length + s.ownedLoans.length = addresses.length := by
    rw [← hI.owned.length_eq, BufferPool.owned, List.length_append, List.length_map,
      List.length_map]
  refine ⟨hI.distinct, hcount, fun l hl hpooled => hI.exists_returned hl hpooled,
    fun l hl hpooled => ⟨hI.not_mem_of_temporary hl hpooled, hI.exists_freed hl hpooled⟩,
    fun b hb => ?_, fun hnone => ?_⟩
  · exact hI.owned.mem_iff.mp (List.mem_append_left _ (List.mem_map_of_mem hb))
  · have howned : s.ownedLoans = [] := by rw [BufferPool.ownedLoans, hnone, List.filter_nil]
    refine ⟨?_, ?_, fun b hb hkeeps => hI.sized b (List.mem_append_left _ hb) hkeeps⟩
    · have hperm := hI.owned
      rwa [BufferPool.owned, howned, List.map_nil, List.append_nil] at hperm
    · rwa [howned, List.length_nil, Nat.add_zero] at hcount

/-- Two buffers and three loans, the temporary one ended first. -/
theorem buffer_pool_conservation_exhausted :
    ∃ s tr, (bufferPool (0 : ℤ) [1, 2] 4).Run [.acquire 0, .acquire 0, .acquire 7, .giveBack 7,
        .giveBack 1, .giveBack 2] s tr ∧ .freed 7 ∈ tr ∧ s.loans = [] ∧ s.pool.length = 2 := by
  have hrun : ∃ s tr, (bufferPool (0 : ℤ) [1, 2] 4).Run [.acquire 0, .acquire 0, .acquire 7,
      .giveBack 7, .giveBack 1, .giveBack 2] s tr ∧
      .freed 7 ∈ tr ∧ s.loans = [] :=
    Machine.exists_reaches_of_decide _ (by decide +kernel)
  obtain ⟨s, tr, hrun, hfreed, hnone⟩ := hrun
  obtain ⟨-, -, -, -, -, hall⟩ := buffer_pool_conservation (by decide) hrun
  exact ⟨s, tr, hrun, hfreed, hnone, (hall hnone).2.1⟩

/-! ### The pool of the brain -/

namespace BufferPool

open ExtNum

variable {n : ℕ} {H : Type*} {cfg : BrainConfig n} {b : Brain n H} {s : BufferPool Scalar}

/-- `acquireBuffer` is `Acquire` without the addresses. -/
theorem acquire_tensorPool (hpool : b.tensorPool = s.pool.map Buffer.data)
    (hsize : s.elementSize = cfg.obsDim) {fresh : ℕ}
    {r : BufferPool Scalar × List (PoolAction Scalar)}
    (h : s.acquire (fin 0) fresh = some r) :
    ∃ loan, r = (r.1, [.lent loan]) ∧ (b.acquireBuffer cfg).1 = loan.buffer.data ∧
      (b.acquireBuffer cfg).2.1 = loan.pooled ∧
      (b.acquireBuffer cfg).2.2.tensorPool = r.1.pool.map Buffer.data := by
  have hresult : StepResult (fin 0) s (.acquire fresh) r := stepResult h
  cases hresult with
  | lent hs =>
    rw [hs, List.map_cons] at hpool
    refine ⟨_, rfl, ?_, ?_, ?_⟩
    · simp only [Brain.acquireBuffer, hpool]
    · simp only [Brain.acquireBuffer, hpool]
    · simp only [Brain.acquireBuffer, hpool, lend]
  | temporary hs =>
    rw [hs, List.map_nil] at hpool
    refine ⟨_, rfl, ?_, ?_, ?_⟩
    · simp only [Brain.acquireBuffer, hpool, hsize]
    · simp only [Brain.acquireBuffer, hpool]
    · simp only [Brain.acquireBuffer, hpool, lend, hs, List.map_nil]

/-- `releaseBuffer` is the end of a loan without the addresses. -/
theorem giveBack_tensorPool (hpool : b.tensorPool = s.pool.map Buffer.data)
    (halive : s.alive = true) {loan : Loan Scalar}
    (hfind : (s.loans.find? fun l => l.buffer.address = loan.buffer.address) = some loan)
    {r : BufferPool Scalar × List (PoolAction Scalar)}
    (h : s.giveBack loan.buffer.address = some r) :
    (b.releaseBuffer loan.buffer.data loan.pooled).tensorPool = r.1.pool.map Buffer.data := by
  simp only [giveBack, hfind, halive, if_true] at h
  unfold Brain.releaseBuffer
  split_ifs at h ⊢
  · obtain rfl := Option.some.inj h
    rw [List.map_cons, ← hpool]
  · obtain rfl := Option.some.inj h
    exact hpool

end BufferPool

end RobotBrain

/-
This file models the requests of the in-order processor that cross lines (`SplitDataRequest` of
`cpu/minor/lsq.cc`): how a request is cut into fragments, which bytes the packets of a store get,
and how the responses of a load are put together.

The last fragment is recognised by a comparison of addresses that wrap around. The end of the
topmost line is address zero, so that a fragment there is taken for a whole line, and the end of a
request that wraps around is below its start, so that a whole line is taken for the last fragment.
The file proves that requests away from these are cut into pieces that make them up, with the right
bytes for stores and, in whatever order the responses come, for loads, and that the others are not.
-/

import Gem5.Library.Run
import Mathlib.Algebra.Order.Ring.Nat
import Mathlib.Data.Nat.ModEq

namespace Gem5.Cpu.MinorSplit

open Library List

inductive Fault where
  | assertion
  deriving DecidableEq

/-- The block sizes are powers of two. -/
def addrBlockOffset (addr blockSize : Nat) : Nat := addr &&& (blockSize - 1)

def transferNeedsBurst (addr size blockSize : Nat) : Bool :=
  decide (blockSize < addrBlockOffset addr blockSize + size)

structure Transfer where
  vaddr : Nat
  size : Nat
  lineLog : Nat
  vaddr_lt : vaddr < 2 ^ 64
  size_lt : size < 2 ^ 32
  lineLog_lt : lineLog < 32
  burst : transferNeedsBurst vaddr size (2 ^ lineLog) = true

structure Fragment where
  vaddr : Nat
  size : Nat
  deriving DecidableEq

namespace Transfer

def lineWidth (transfer : Transfer) : Nat := 2 ^ transfer.lineLog

def firstFragmentSize (transfer : Transfer) : Nat :=
  transfer.lineWidth - addrBlockOffset transfer.vaddr transfer.lineWidth

def endAddr (transfer : Transfer) : Nat := (transfer.vaddr + transfer.size) % 2 ^ 64

/-- The size of the fragment at an address: the size is an `unsigned int`, the addresses have 64
bits. -/
def fragmentSize (transfer : Transfer) (fragmentAddr : Nat) : Nat :=
  if fragmentAddr = transfer.vaddr then transfer.firstFragmentSize
  else if transfer.endAddr < (fragmentAddr + transfer.lineWidth) % 2 ^ 64 then
    (transfer.endAddr + 2 ^ 64 - fragmentAddr) % 2 ^ 64 % 2 ^ 32
  else transfer.lineWidth

def fragmentLoop (transfer : Transfer) : Nat → Nat → List Fragment
  | 0, _ => []
  | count + 1, fragmentAddr =>
    let size := transfer.fragmentSize fragmentAddr
    ⟨fragmentAddr, size⟩ :: transfer.fragmentLoop count ((fragmentAddr + size) % 2 ^ 64)

def makeFragmentRequests (transfer : Transfer) : Except Fault (List Fragment) := do
  let width := transfer.lineWidth
  let first := transfer.firstFragmentSize
  let last := addrBlockOffset transfer.endAddr width
  let middle := transfer.size - (first + last)
  if addrBlockOffset middle width ≠ 0 then throw .assertion
  let count := middle / width
  if count * width + first + last ≠ transfer.size then throw .assertion
  return transfer.fragmentLoop (1 + count + if last = 0 then 0 else 1) transfer.vaddr

/-- The place of an address in the request. -/
def offset (transfer : Transfer) (vaddr : Nat) : Nat :=
  (vaddr + 2 ^ 64 - transfer.vaddr) % 2 ^ 64

def makeFragmentPackets {Byte : Type} (transfer : Transfer) (fragments : List Fragment)
    (data : Nat → Byte) : List (List Byte) :=
  fragments.map fun fragment =>
    (range fragment.size).map fun j => data (transfer.offset fragment.vaddr + j)

end Transfer

/-! ### Cutting -/

/-- The fragments follow each other without gaps and are not empty, each is in one line, and they
are as long as the request together. -/
def Tiles (width : Nat) : Nat → Nat → List Fragment → Prop
  | _, left, [] => left = 0
  | addr, left, fragment :: rest =>
    fragment.vaddr = addr % 2 ^ 64 ∧ 0 < fragment.size ∧ fragment.size ≤ left ∧
      fragment.vaddr % width + fragment.size ≤ width ∧
      Tiles width (addr + fragment.size) (left - fragment.size) rest

theorem addrBlockOffset_eq (addr exponent : Nat) :
    addrBlockOffset addr (2 ^ exponent) = addr % 2 ^ exponent :=
  Nat.and_two_pow_sub_one_eq_mod addr exponent

theorem add_le_of_dvd {width low high : Nat} (first : width ∣ low) (second : width ∣ high)
    (less : low < high) : low + width ≤ high := by
  obtain ⟨k, rfl⟩ := first
  obtain ⟨l, rfl⟩ := second
  have fewer : k < l := Nat.lt_of_mul_lt_mul_left less
  calc width * k + width = width * (k + 1) := (Nat.mul_succ width k).symm
    _ ≤ width * l := Nat.mul_le_mul_left width fewer

namespace Transfer

variable (transfer : Transfer)

theorem lineWidth_pos : 0 < transfer.lineWidth := Nat.two_pow_pos _

theorem lineWidth_lt : transfer.lineWidth < 2 ^ 32 :=
  Nat.pow_lt_pow_right (by decide) transfer.lineLog_lt

theorem lineWidth_dvd : transfer.lineWidth ∣ 2 ^ 64 :=
  Nat.pow_dvd_pow 2 (le_trans (le_of_lt transfer.lineLog_lt) (by decide))

theorem first_spec : 0 < transfer.firstFragmentSize ∧
    transfer.firstFragmentSize < transfer.size ∧
    transfer.vaddr % transfer.lineWidth + transfer.firstFragmentSize = transfer.lineWidth ∧
    transfer.lineWidth ∣ transfer.vaddr + transfer.firstFragmentSize := by
  have below := Nat.mod_lt transfer.vaddr transfer.lineWidth_pos
  have burst := of_decide_eq_true transfer.burst
  have sum : transfer.vaddr % transfer.lineWidth + transfer.firstFragmentSize =
      transfer.lineWidth := by
    rw [firstFragmentSize, lineWidth, addrBlockOffset_eq, ← lineWidth]
    omega
  rw [addrBlockOffset_eq, ← lineWidth] at burst
  refine ⟨by omega, by omega, sum, ?_⟩
  have split := Nat.div_add_mod transfer.vaddr transfer.lineWidth
  refine ⟨transfer.vaddr / transfer.lineWidth + 1, ?_⟩
  rw [Nat.mul_succ]
  omega

variable {transfer}

theorem tiles_fragmentLoop_iff (count addr : Nat) (aligned : transfer.lineWidth ∣ addr)
    (after : transfer.vaddr < addr) (within : addr ≤ transfer.vaddr + transfer.size)
    (enough : transfer.vaddr + transfer.size ≤ addr + count * transfer.lineWidth)
    (few : addr + count * transfer.lineWidth <
      transfer.vaddr + transfer.size + transfer.lineWidth) :
    Tiles transfer.lineWidth addr (transfer.vaddr + transfer.size - addr)
        (transfer.fragmentLoop count (addr % 2 ^ 64)) ↔
      addr = transfer.vaddr + transfer.size ∨
        transfer.vaddr + transfer.size + transfer.lineWidth ≤ 2 ^ 64 ∨
        2 ^ 64 ≤ transfer.vaddr + transfer.size ∧ 2 ^ 64 ≤ addr + transfer.lineWidth := by
  induction count generalizing addr with
  | zero =>
    have ends : addr = transfer.vaddr + transfer.size := by omega
    rw [← ends, Nat.sub_self]
    exact iff_of_true rfl (.inl rfl)
  | succ count hypothesis =>
    have size_lt := transfer.size_lt
    have vaddr_lt := transfer.vaddr_lt
    have width_lt := transfer.lineWidth_lt
    rw [Nat.succ_mul] at enough few
    have lineStart : addr % 2 ^ 64 % transfer.lineWidth = 0 := by
      rw [Nat.mod_mod_of_dvd _ transfer.lineWidth_dvd, Nat.mod_eq_zero_of_dvd aligned]
    have topmost : addr < 2 ^ 64 → addr + transfer.lineWidth ≤ 2 ^ 64 :=
      add_le_of_dvd aligned transfer.lineWidth_dvd
    have nextTopmost : addr + transfer.lineWidth < 2 ^ 64 →
        addr + transfer.lineWidth + transfer.lineWidth ≤ 2 ^ 64 :=
      add_le_of_dvd (Nat.dvd_add_self_right.mpr aligned) transfer.lineWidth_dvd
    rw [fragmentLoop, Tiles]
    dsimp only
    rw [lineStart]
    by_cases last : transfer.vaddr + transfer.size < addr + transfer.lineWidth
    · by_cases top : transfer.vaddr + transfer.size < 2 ^ 64 ∧
        addr + transfer.lineWidth = 2 ^ 64
      · have size : transfer.fragmentSize (addr % 2 ^ 64) = transfer.lineWidth := by
          unfold fragmentSize endAddr
          split_ifs <;> omega
        refine iff_of_false (fun tiles => ?_) (by omega)
        omega
      · have size : transfer.fragmentSize (addr % 2 ^ 64) =
            transfer.vaddr + transfer.size - addr := by
          unfold fragmentSize endAddr
          split_ifs <;> omega
        have ends : count = 0 := by
          by_contra more
          have lines : transfer.lineWidth ≤ count * transfer.lineWidth :=
            Nat.le_mul_of_pos_left _ (Nat.pos_of_ne_zero more)
          omega
        rw [size, ends, Nat.sub_self]
        exact iff_of_true ⟨rfl, by omega, by omega, by omega, rfl⟩ (by omega)
    · by_cases wraps : 2 ^ 64 ≤ transfer.vaddr + transfer.size ∧
        addr + transfer.lineWidth < 2 ^ 64
      · have size : transfer.fragmentSize (addr % 2 ^ 64) =
            transfer.vaddr + transfer.size - addr := by
          unfold fragmentSize endAddr
          split_ifs <;> omega
        refine iff_of_false (fun tiles => ?_) (by omega)
        omega
      · have size : transfer.fragmentSize (addr % 2 ^ 64) = transfer.lineWidth := by
          unfold fragmentSize endAddr
          split_ifs <;> omega
        have rest := hypothesis _ (Nat.dvd_add_self_right.mpr aligned) (by omega)
          (by omega) (by omega) (by omega)
        have place : (addr % 2 ^ 64 + transfer.lineWidth) % 2 ^ 64 =
            (addr + transfer.lineWidth) % 2 ^ 64 := Nat.mod_add_mod ..
        rw [size, place, Nat.sub_sub, rest]
        omega

/-- The request does not reach into the topmost line, or it reaches to its end or beyond and starts
in one of the two topmost lines. -/
def Clear (transfer : Transfer) : Prop :=
  transfer.vaddr + transfer.size + transfer.lineWidth ≤ 2 ^ 64 ∨
    2 ^ 64 ≤ transfer.vaddr + transfer.size ∧
      2 ^ 64 ≤ transfer.vaddr + transfer.firstFragmentSize + transfer.lineWidth

/-- The assertions hold, and the fragments make up the request exactly if it is clear of the top of
the address space. -/
theorem makeFragmentRequests_spec (transfer : Transfer) :
    ∃ fragments, transfer.makeFragmentRequests = .ok fragments ∧
      (Tiles transfer.lineWidth transfer.vaddr transfer.size fragments ↔ transfer.Clear) := by
  obtain ⟨_, _, line, aligned⟩ := transfer.first_spec
  have vaddr_lt := transfer.vaddr_lt
  have last : addrBlockOffset transfer.endAddr transfer.lineWidth =
      (transfer.size - transfer.firstFragmentSize) % transfer.lineWidth := by
    rw [lineWidth, addrBlockOffset_eq, ← lineWidth, endAddr,
      Nat.mod_mod_of_dvd _ transfer.lineWidth_dvd]
    obtain ⟨lines, _⟩ := aligned
    have split : transfer.vaddr + transfer.size =
        transfer.lineWidth * lines + (transfer.size - transfer.firstFragmentSize) := by omega
    rw [split, Nat.mul_add_mod]
  have division := Nat.div_add_mod (transfer.size - transfer.firstFragmentSize) transfer.lineWidth
  have remainder := Nat.mod_lt (transfer.size - transfer.firstFragmentSize) transfer.lineWidth_pos
  generalize quotientIs :
    (transfer.size - transfer.firstFragmentSize) / transfer.lineWidth = quotient at division
  generalize (transfer.size - transfer.firstFragmentSize) % transfer.lineWidth = left at *
  have middle : transfer.size - (transfer.firstFragmentSize + left) =
      transfer.lineWidth * quotient := by omega
  have whole : addrBlockOffset (transfer.lineWidth * quotient) transfer.lineWidth = 0 := by
    rw [lineWidth, addrBlockOffset_eq, Nat.mul_mod_right]
  have count : transfer.lineWidth * quotient / transfer.lineWidth = quotient :=
    Nat.mul_div_cancel_left _ transfer.lineWidth_pos
  have sum : quotient * transfer.lineWidth + transfer.firstFragmentSize + left =
      transfer.size := by
    rw [mul_comm]
    omega
  rw [makeFragmentRequests]
  dsimp only
  rw [last, middle, whole, count, sum, if_neg (not_not_intro rfl), if_neg (not_not_intro rfl)]
  refine ⟨_, rfl, ?_⟩
  rw [add_assoc, add_comm 1, fragmentLoop, Tiles]
  dsimp only
  have first : transfer.fragmentSize transfer.vaddr = transfer.firstFragmentSize := if_pos rfl
  have lines : ∀ extra, (quotient + extra) * transfer.lineWidth =
      transfer.lineWidth * quotient + extra * transfer.lineWidth := by
    intro extra
    rw [add_mul, mul_comm quotient]
  have others := tiles_fragmentLoop_iff (quotient + if left = 0 then 0 else 1)
    (transfer.vaddr + transfer.firstFragmentSize) aligned (by omega) (by omega)
    (by rw [lines]; split <;> omega) (by rw [lines]; split <;> omega)
  rw [first, line, Nat.mod_eq_of_lt vaddr_lt]
  rw [Nat.add_sub_add_left] at others
  rw [others, Clear]
  omega

end Transfer

/-! ### Stores -/

variable {Byte : Type} {transfer : Transfer} {width left : Nat} {fragments : List Fragment}

theorem Transfer.offset_eq {vaddr place : Nat} (at' : vaddr = (transfer.vaddr + place) % 2 ^ 64)
    (small : place ≤ transfer.size) : transfer.offset vaddr = place := by
  have vaddr_lt := transfer.vaddr_lt
  have size_lt := transfer.size_lt
  rw [offset, at']
  omega

theorem Tiles.packets (place : Nat)
    (tiles : Tiles width (transfer.vaddr + place) left fragments)
    (within : place + left ≤ transfer.size) (data : Nat → Byte) :
    (transfer.makeFragmentPackets fragments data).flatten =
      (range left).map fun i => data (place + i) := by
  induction fragments generalizing place left with
  | nil =>
    cases tiles
    rfl
  | cons fragment _ hypothesis =>
    obtain ⟨at', -, _, -, others⟩ := tiles
    rw [add_assoc] at others
    have later := hypothesis _ others (by omega)
    rw [Transfer.makeFragmentPackets] at later ⊢
    rw [map_cons, flatten_cons, later, Transfer.offset_eq at' (by omega)]
    have whole : left = fragment.size + (left - fragment.size) := by omega
    rw [whole, range_add, map_append, map_map, Nat.add_sub_cancel_left]
    simp only [Function.comp_def, add_assoc]

/-! ### Loads -/

structure Response (Byte : Type) where
  vaddr : Nat
  size : Nat
  isError : Bool
  data : Nat → Byte

/-- A request with its fragments. A byte of the data is `none` as long as nothing is copied
there; `packet` is the data of the response to the whole request. -/
structure SplitDataRequest (Byte : Type) where
  transfer : Transfer
  isLoad : Bool
  numFragments : Nat
  numIssuedFragments : Nat
  numRetiredFragments : Nat
  skipped : Bool
  complete : Bool
  needsResponse : Bool
  error : Bool
  data : Option (Nat → Option Byte)
  packet : Nat → Option Byte

namespace SplitDataRequest

/-- `memcpy` to a place in the data. -/
def copy (start size : Nat) (source : Nat → Byte) (data : Nat → Option Byte) (i : Nat) :
    Option Byte :=
  if start ≤ i ∧ i < start + size then some (source (i - start)) else data i

/-- The part of `retireResponse` that takes the response. -/
def accept (request : SplitDataRequest Byte) (response : Response Byte) : SplitDataRequest Byte :=
  let request := { request with numRetiredFragments := request.numRetiredFragments + 1 }
  if request.skipped then request
  else if response.isError then { request with skipped := true, error := true }
  else if request.isLoad then
    { request with
      data := some (copy (request.transfer.offset response.vaddr) response.size response.data
        (request.data.getD fun _ => none)) }
  else request

/-- The part that completes the request. -/
def finish (request : SplitDataRequest Byte) : Except Fault (SplitDataRequest Byte) :=
  let request :=
    if request.skipped ∧ request.numIssuedFragments = request.numRetiredFragments then
      { request with complete := true, needsResponse := false }
    else request
  let request :=
    if request.numRetiredFragments = request.numFragments then { request with complete := true }
    else request
  if ¬ request.skipped ∧ request.complete then
    let data := request.data.getD fun _ => none
    if ¬ request.needsResponse then .error .assertion
    else .ok { request with
      data := some data, packet := if request.isLoad then data else request.packet
      needsResponse := false }
  else .ok request

def retireResponse (request : SplitDataRequest Byte) (response : Response Byte) :
    Except Fault (SplitDataRequest Byte) :=
  if request.numFragments ≤ request.numRetiredFragments then .error .assertion
  else (request.accept response).finish

/-- A load whose fragments are made. -/
def made (Byte : Type) (transfer : Transfer) (fragments : List Fragment) :
    SplitDataRequest Byte where
  transfer := transfer
  isLoad := true
  numFragments := fragments.length
  numIssuedFragments := 0
  numRetiredFragments := 0
  skipped := false
  complete := false
  needsResponse := true
  error := false
  data := none
  packet := fun _ => none

end SplitDataRequest

def respond (memory : Nat → Byte) (fragment : Fragment) : Response Byte where
  vaddr := fragment.vaddr
  size := fragment.size
  isError := false
  data := fun j => memory ((fragment.vaddr + j) % 2 ^ 64)

/-- The response to a fragment comes when a number of the fragments are issued. -/
def answer (memory : Nat → Byte) (request : SplitDataRequest Byte) (response : Nat × Fragment) :
    Except Fault (SplitDataRequest Byte) :=
  { request with numIssuedFragments := response.1 }.retireResponse (respond memory response.2)

/-- A load after the responses to some fragments: their bytes are those of the memory. -/
structure Assembled (memory : Nat → Byte) (transfer : Transfer) (count : Nat)
    (retired : List Fragment) (request : SplitDataRequest Byte) : Prop where
  same : request.transfer = transfer
  isLoad : request.isLoad = true
  skipped : request.skipped = false
  numFragments : request.numFragments = count
  numRetired : request.numRetiredFragments = retired.length
  complete : request.complete = decide (retired.length = count)
  needsResponse : request.needsResponse = decide (retired.length < count)
  bytes : ∀ fragment ∈ retired, ∀ i, transfer.offset fragment.vaddr ≤ i →
    i < transfer.offset fragment.vaddr + fragment.size →
      (request.data.getD fun _ => none) i = some (memory ((transfer.vaddr + i) % 2 ^ 64))
  packet : retired.length = count → request.packet = request.data.getD fun _ => none

theorem Assembled.answer {memory : Nat → Byte} {count issued : Nat} {retired : List Fragment}
    {request : SplitDataRequest Byte} {fragment : Fragment}
    (assembled : Assembled memory transfer count retired request)
    (more : retired.length < count) (small : fragment.vaddr < 2 ^ 64) :
    ∃ next, MinorSplit.answer memory request (issued, fragment) = .ok next ∧
      Assembled memory transfer count (retired ++ [fragment]) next := by
  obtain ⟨same, isLoad, skipped, numFragments, numRetired, complete, needsResponse, bytes, -⟩ :=
    assembled
  have copied : ∀ other ∈ retired ++ [fragment], ∀ i, transfer.offset other.vaddr ≤ i →
      i < transfer.offset other.vaddr + other.size →
        SplitDataRequest.copy (transfer.offset fragment.vaddr) fragment.size
          (fun j => memory ((fragment.vaddr + j) % 2 ^ 64)) (request.data.getD fun _ => none) i =
            some (memory ((transfer.vaddr + i) % 2 ^ 64)) := by
    intro other member i low high
    by_cases inside : transfer.offset fragment.vaddr ≤ i ∧
      i < transfer.offset fragment.vaddr + fragment.size
    · have vaddr_lt := transfer.vaddr_lt
      have place : (fragment.vaddr + (i - transfer.offset fragment.vaddr)) % 2 ^ 64 =
          (transfer.vaddr + i) % 2 ^ 64 := by
        rw [Transfer.offset] at inside ⊢
        omega
      rw [SplitDataRequest.copy, if_pos inside, place]
    · rcases mem_append.mp member with old | new
      · rw [SplitDataRequest.copy, if_neg inside]
        exact bytes other old i low high
      · cases mem_singleton.mp new
        exact absurd ⟨low, high⟩ inside
  rw [MinorSplit.answer, SplitDataRequest.retireResponse, if_neg (by dsimp only; omega)]
  simp only [SplitDataRequest.accept, respond, skipped, isLoad, same, Bool.false_eq_true, if_false,
    if_true]
  generalize SplitDataRequest.copy (transfer.offset fragment.vaddr) fragment.size
    (fun j => memory ((fragment.vaddr + j) % 2 ^ 64)) (request.data.getD fun _ => none) = copies
    at copied ⊢
  have length : (retired ++ [fragment]).length = retired.length + 1 := length_append
  by_cases last : retired.length + 1 = count
  · rw [decide_eq_true more] at needsResponse
    simp only [SplitDataRequest.finish, needsResponse, numRetired, numFragments, last,
      Bool.false_eq_true, false_and, if_false, if_true, not_false_eq_true, not_true_eq_false,
      and_self]
    refine ⟨_, rfl, rfl, rfl, rfl, rfl, ?_, ?_, ?_, ?_, fun _ => rfl⟩
    · rw [length, last]
    · rw [length, decide_eq_true last]
    · rw [length, decide_eq_false (by omega)]
    · intro other member i low high
      rw [Option.getD_some, Option.getD_some, copied other member i low high]
  · rw [decide_eq_false (by omega)] at complete
    simp only [SplitDataRequest.finish, complete, numRetired, numFragments, last,
      Bool.false_eq_true, false_and, if_false, and_false]
    refine ⟨_, rfl, rfl, rfl, rfl, rfl, ?_, ?_, ?_, ?_, ?_⟩
    · rw [length]
    · rw [length, decide_eq_false last]
    · rw [length, decide_eq_true (by omega)]
      exact needsResponse.trans (decide_eq_true more)
    · intro other member i low high
      rw [Option.getD_some, copied other member i low high]
    · rw [length]
      exact fun all => absurd all last

theorem Assembled.of_responses {memory : Nat → Byte} {count : Nat} {before : List Fragment}
    {request : SplitDataRequest Byte} (assembled : Assembled memory transfer count before request)
    (responses : List (Nat × Fragment)) (few : before.length + responses.length ≤ count)
    (small : ∀ response ∈ responses, response.2.vaddr < 2 ^ 64) :
    ∃ final, responses.foldlM (MinorSplit.answer memory) request = .ok final ∧
      Assembled memory transfer count (before ++ responses.map Prod.snd) final := by
  induction responses generalizing before request with
  | nil => exact ⟨request, rfl, by rwa [map_nil, append_nil]⟩
  | cons response rest hypothesis =>
    rw [length_cons] at few
    obtain ⟨_, retired, after⟩ :=
      assembled.answer (by omega) (small response mem_cons_self)
    obtain ⟨final, rest, ended⟩ := hypothesis after
      (by rw [length_append, length_singleton]; omega)
      fun other member => small other (mem_cons_of_mem _ member)
    refine ⟨final, ?_, by rwa [append_assoc, singleton_append] at ended⟩
    rw [foldlM_cons, retired]
    exact rest

theorem Tiles.vaddr_lt {addr : Nat} (tiles : Tiles width addr left fragments) :
    ∀ fragment ∈ fragments, fragment.vaddr < 2 ^ 64 := by
  induction fragments generalizing addr left with
  | nil => exact fun _ member => absurd member not_mem_nil
  | cons _ _ hypothesis =>
    obtain ⟨at', -, -, -, others⟩ := tiles
    intro fragment member
    rcases mem_cons.mp member with rfl | member
    · rw [at']
      exact Nat.mod_lt _ (by decide)
    · exact hypothesis others fragment member

theorem Tiles.covers (place : Nat)
    (tiles : Tiles width (transfer.vaddr + place) left fragments)
    (within : place + left ≤ transfer.size) {i : Nat} (low : place ≤ i) (high : i < place + left) :
    ∃ fragment ∈ fragments, transfer.offset fragment.vaddr ≤ i ∧
      i < transfer.offset fragment.vaddr + fragment.size := by
  induction fragments generalizing place left with
  | nil =>
    have nothing : left = 0 := tiles
    omega
  | cons first _ hypothesis =>
    obtain ⟨at', -, _, -, others⟩ := tiles
    have offset := Transfer.offset_eq at' (le_trans (Nat.le_add_right place left) within)
    by_cases inside : i < place + first.size
    · exact ⟨first, mem_cons_self, by omega, by omega⟩
    · rw [add_assoc] at others
      obtain ⟨fragment, member, covered⟩ :=
        hypothesis _ others (by omega) (by omega) (by omega)
      exact ⟨fragment, mem_cons_of_mem _ member, covered⟩

/-! ### The split request -/

/-- The fragments make up the request, the packets of a store have its bytes, and a load is complete
after the last of its responses, in whatever order they come and whatever has been issued by then,
with the bytes of the memory. -/
structure Right (Byte : Type) (transfer : Transfer) (fragments : List Fragment) : Prop where
  tiles : Tiles transfer.lineWidth transfer.vaddr transfer.size fragments
  stores : ∀ data : Nat → Byte, (transfer.makeFragmentPackets fragments data).flatten =
    (range transfer.size).map data
  loads : ∀ (memory : Nat → Byte) (retired : List (Nat × Fragment)) (pending : List Fragment),
    (retired.map Prod.snd ++ pending).Perm fragments → ∃ request,
      retired.foldlM (answer memory) (.made Byte transfer fragments) = .ok request ∧
        (request.complete = true ↔ pending = []) ∧
        (pending = [] → ∀ i < transfer.size,
          request.packet i = some (memory ((transfer.vaddr + i) % 2 ^ 64)))

theorem Tiles.right
    (tiles : Tiles transfer.lineWidth transfer.vaddr transfer.size fragments) :
    Right Byte transfer fragments := by
  refine ⟨tiles, fun data => ?_, fun memory retired pending order => ?_⟩
  · have packets := Tiles.packets 0 tiles (by omega) data
    simpa only [zero_add] using packets
  · have lengths : retired.length + pending.length = fragments.length := by
      rw [← order.length_eq, length_append, length_map]
    have nonempty : fragments ≠ [] := by
      rintro rfl
      have first := transfer.first_spec
      have nothing : transfer.size = 0 := tiles
      omega
    have positive := length_pos_of_ne_nil nonempty
    have start : Assembled memory transfer fragments.length []
        (.made Byte transfer fragments) := by
      refine ⟨rfl, rfl, rfl, rfl, rfl, ?_, ?_, ?_, ?_⟩
      · exact (decide_eq_false (ne_of_lt positive)).symm
      · exact (decide_eq_true positive).symm
      · exact fun _ member => absurd member not_mem_nil
      · exact fun _ => rfl
    obtain ⟨request, responded, after⟩ := start.of_responses retired
      (by rw [length_nil]; omega)
      fun response member => tiles.vaddr_lt response.2
        (order.mem_iff.mp (mem_append_left _ (mem_map_of_mem member)))
    rw [nil_append] at after
    have all : retired.length = fragments.length ↔ pending = [] := by
      rw [← length_eq_zero_iff]
      omega
    refine ⟨request, responded, ?_, ?_⟩
    · rw [after.complete, decide_eq_true_iff, length_map, all]
    · rintro rfl i below
      obtain ⟨fragment, member, low, high⟩ :=
        Tiles.covers 0 tiles (by omega) (Nat.zero_le i) (by omega)
      rw [append_nil] at order
      rw [after.packet ((length_map _).trans (all.mpr rfl))]
      exact after.bytes fragment (order.mem_iff.mpr member) i low high

/-- A request is split right exactly if it is clear of the top of the address space. -/
theorem split_right_iff (Byte : Type) (transfer : Transfer) :
    ∃ fragments, transfer.makeFragmentRequests = .ok fragments ∧
      (Right Byte transfer fragments ↔ transfer.Clear) := by
  obtain ⟨fragments, made, tiles⟩ := transfer.makeFragmentRequests_spec
  exact ⟨fragments, made, fun right => tiles.mp right.tiles, fun clear => (tiles.mpr clear).right⟩

/-- Sixteen bytes that end in the topmost line, with lines of 64 bytes: the second fragment is the
whole line instead of eight bytes. -/
theorem whole_topmost_line : ∃ transfer : Transfer,
    transfer.vaddr = 2 ^ 64 - 72 ∧ transfer.size = 16 ∧ transfer.lineWidth = 64 ∧
      transfer.makeFragmentRequests = .ok [⟨2 ^ 64 - 72, 8⟩, ⟨2 ^ 64 - 64, 64⟩] :=
  ⟨⟨2 ^ 64 - 72, 16, 6, by decide, by decide, by decide, by decide +kernel⟩, rfl, rfl, rfl, rfl⟩

end Gem5.Cpu.MinorSplit

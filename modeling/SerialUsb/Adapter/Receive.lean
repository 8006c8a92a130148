import SerialUsb.Memory.Copy
import SerialUsb.Protocol.Packet
import SerialUsb.Transition.Run

/-!
# Receiving packets from the serial line

`adapter_recv` collects a packet in the buffer of the adapter, `bread` bytes so
far, and asks the serial device for what the packet still misses. A read
returns any part of what was asked for. `Session.Follows` is the invariant of
the whole session: the bytes read so far are the frames handed to the packet
callback followed by the bytes that wait in the buffer, unless a header
announced 255 value bytes, which the buffer cannot hold.
-/

namespace SerialUsb

open Framing Memory Transition

structure SPacket where
  bytes : Vector UInt8 maxPacketSize
  deriving DecidableEq

def SPacket.zero : SPacket := ⟨Vector.replicate maxPacketSize 0⟩

def SPacket.type (p : SPacket) : UInt8 := p.bytes[0]

def SPacket.length (p : SPacket) : UInt8 := p.bytes[1]

def SPacket.value (p : SPacket) : List UInt8 := p.bytes.toList.drop sizeofHeader

theorem SPacket.value_length (p : SPacket) : p.value.length = 254 := by
  simp [SPacket.value]

def SPacket.frame (p : SPacket) : PacketFrame :=
  ⟨p.type, p.value.take p.length.toNat, by
    rw [List.length_take, p.value_length]
    exact Nat.min_le_right _ _⟩

/-- `devices[device].read`: the size of the next read, and the size of the
buffer it goes to. -/
structure ReadRequest where
  count : ℕ
  size : ℕ
  deriving DecidableEq

/-- `async_set_read_size`, where `realloc n` tells whether a buffer of `n`
bytes can be allocated. -/
def asyncSetReadSize (realloc : ℕ → Bool) (read : ReadRequest) (size : ℕ) :
    ReadRequest × Int :=
  if read.size < size then
    if realloc size then (⟨size, size⟩, 0) else (read, -1)
  else ({ read with count := size }, 0)

theorem asyncSetReadSize_count {realloc : ℕ → Bool}
    (halloc : ∀ n, realloc n = true) (read : ReadRequest) (size : ℕ) :
    (asyncSetReadSize realloc read size).1.count = size := by
  unfold asyncSetReadSize
  split <;> simp [halloc]

/-- What `adapter_recv` reads and writes: `adapters[adapter]`, and the read
request of its serial device. -/
structure Receiver where
  packet : SPacket
  bread : ℕ
  read : ReadRequest
  deriving DecidableEq

def Receiver.start : Receiver := ⟨SPacket.zero, 0, ⟨0, 0⟩⟩

def unsignedSub (a b : ℕ) : ℕ := (a + 2 ^ 32 - b % 2 ^ 32) % 2 ^ 32

theorem unsignedSub_of_le {a b : ℕ} (hle : b ≤ a) (ha : a < 2 ^ 32) :
    unsignedSub a b = a - b := by
  unfold unsignedSub
  omega

def Receiver.store (r : Receiver) (buf : List UInt8) : Receiver :=
  { r with
    packet := ⟨copyAt r.packet.bytes r.bread buf⟩
    bread := r.bread + buf.length }

def Receiver.remaining (r : Receiver) : ℕ :=
  if r.bread < sizeofHeader then unsignedSub sizeofHeader r.bread
  else unsignedSub r.packet.length.toNat (unsignedSub r.bread sizeofHeader)

/-- `gserial_set_read_size`; `adapter_recv` ignores its result. -/
def Receiver.setReadSize (realloc : ℕ → Bool) (r : Receiver) (size : ℕ) :
    Receiver :=
  { r with read := (asyncSetReadSize realloc r.read size).1 }

/-- `ADAPTER_READ_CALLBACK`: from the packet, the packet as the callback leaves
it and its result; `π` is whatever else the callback works on. -/
abbrev PacketCallback (π : Type*) := π → SPacket → π × SPacket × Int

structure RecvResult (π : Type*) where
  receiver : Receiver
  user : π
  ret : Int
  delivered : Option SPacket

/-- `adapter_recv` on the outcome of a `read`: `none` for an error (a negative
status), otherwise the bytes read. -/
def adapterRecv {π : Type*} (realloc : ℕ → Bool) (fpPacketCb : PacketCallback π)
    (r : Receiver) (u : π) : Option (List UInt8) → RecvResult π
  | none => ⟨r, u, -1, none⟩
  | some buf =>
      if r.bread + buf.length ≤ maxPacketSize then
        let r := r.store buf
        if r.remaining = 0 then
          let (u, packet, ret) := fpPacketCb u r.packet
          ⟨Receiver.setReadSize realloc { r with packet := packet, bread := 0 } sizeofHeader,
            u, ret, some r.packet⟩
        else ⟨r.setReadSize realloc r.remaining, u, 0, none⟩
      -- the critical error: the bytes are dropped, nothing else changes
      else ⟨r, u, -1, none⟩

/-- A receiving session: the receiver, the state of the packet callback and the
packets it was called with. -/
structure Session (π : Type*) where
  receiver : Receiver
  user : π
  delivered : List SPacket

def Session.start {π : Type*} (u : π) : Session π := ⟨Receiver.start, u, []⟩

def Session.recv {π : Type*} (realloc : ℕ → Bool) (fpPacketCb : PacketCallback π)
    (s : Session π) (chunk : List UInt8) : Option (Session π) :=
  if chunk.length ≤ s.receiver.read.count then
    let res := adapterRecv realloc fpPacketCb s.receiver s.user (some chunk)
    some ⟨res.receiver, res.user, s.delivered ++ res.delivered.toList⟩
  else none

def Receiver.stored (r : Receiver) : List UInt8 := r.packet.bytes.toList.take r.bread

theorem Receiver.stored_length {r : Receiver} (hle : r.bread ≤ 256) :
    r.stored.length = r.bread := by
  rw [Receiver.stored, List.length_take, Vector.length_toList, maxPacketSize_eq]
  omega

theorem Receiver.stored_store {r : Receiver} {buf : List UInt8}
    (hfit : r.bread + buf.length ≤ 256) :
    (r.store buf).stored = r.stored ++ buf :=
  toList_take_copyAt r.packet.bytes hfit

theorem SPacket.toList_eq (p : SPacket) :
    p.bytes.toList = p.type :: p.length :: p.value := by
  have hlen : p.bytes.toList.length = 256 := Vector.length_toList
  have h0 : p.type = p.bytes.toList[0] := by simp [SPacket.type]
  have h1 : p.length = p.bytes.toList[1] := by simp [SPacket.length]
  rw [h0, h1, SPacket.value, ← List.drop_eq_getElem_cons, ← List.drop_eq_getElem_cons,
    List.drop_zero]

theorem Receiver.stored_of_header {r : Receiver} (h : 2 ≤ r.bread) :
    r.stored = r.packet.type :: r.packet.length :: r.packet.value.take (r.bread - 2) := by
  obtain ⟨n, hn⟩ := Nat.exists_eq_add_of_le' h
  rw [Receiver.stored, r.packet.toList_eq, hn]
  rfl

theorem Receiver.extent_stored_of_lt {r : Receiver} (h : r.bread < 2) :
    extent r.stored = 2 := by
  have hlen := r.stored_length (by omega)
  match hs : r.stored with
  | [] => rfl
  | [_] => rfl
  | _ :: _ :: _ =>
      rw [hs] at hlen
      simp only [List.length_cons] at hlen
      omega

theorem Receiver.extent_stored_of_header {r : Receiver} (h : 2 ≤ r.bread) :
    extent r.stored = 2 + r.packet.length.toNat := by
  rw [r.stored_of_header h]
  rfl

/-- What holds between two reads: the buffer holds a proper part of the current
frame, and the next read asks for its missing bytes (or for none, before the
first read). -/
structure Receiver.Waiting (r : Receiver) : Prop where
  bread_le : r.bread ≤ 256
  bread_lt : r.bread < extent r.stored
  count_eq : r.read.count = extent r.stored - r.bread ∨ r.bread = 0 ∧ r.read.count = 0

theorem Receiver.waiting_start : Receiver.start.Waiting := by
  refine ⟨by decide, ?_, Or.inr ⟨rfl, rfl⟩⟩
  rw [Receiver.start.extent_stored_of_lt (by decide)]
  decide

theorem Receiver.Waiting.count_le {r : Receiver} (h : r.Waiting) :
    r.bread + r.read.count ≤ extent r.stored := by
  have hlt := h.bread_lt
  rcases h.count_eq with hcount | ⟨hzero, hcount⟩ <;> omega

/-- Bytes that were asked for and fit stay inside the current frame. -/
theorem Receiver.Waiting.bread_store_le {r : Receiver} (h : r.Waiting)
    {buf : List UInt8} (hbuf : buf.length ≤ r.read.count) :
    (r.store buf).bread ≤ extent (r.store buf).stored := by
  have hcount := h.count_le
  have hbread : (r.store buf).bread = r.bread + buf.length := rfl
  by_cases hheader : 2 ≤ r.bread
  · have hlength : (r.store buf).packet.length = r.packet.length :=
      getElem_copyAt_of_lt _ _ _ (by omega)
    rw [extent_stored_of_header (by omega), hlength, ← r.extent_stored_of_header hheader]
    omega
  · rw [r.extent_stored_of_lt (by omega)] at hcount
    by_cases hlt : (r.store buf).bread < 2
    · rw [extent_stored_of_lt hlt]
      omega
    · rw [extent_stored_of_header (by omega)]
      omega

/-- `remaining` is the exact difference: no operand of its subtractions is
larger than what it is taken from. -/
theorem Receiver.remaining_eq {r : Receiver} (h : r.bread ≤ extent r.stored) :
    r.remaining = extent r.stored - r.bread := by
  unfold remaining
  rw [sizeofHeader_eq]
  split
  next hlt =>
    rw [extent_stored_of_lt hlt, unsignedSub_of_le (by omega) (by decide)]
  next hge =>
    have hheader : 2 ≤ r.bread := by omega
    have hlen := r.packet.length.toNat_lt
    rw [extent_stored_of_header hheader] at h ⊢
    rw [unsignedSub_of_le hheader (by omega), unsignedSub_of_le (by omega) (by omega)]
    omega

theorem Receiver.stored_eq_encode {r : Receiver} (hle : r.bread ≤ 256)
    (h : r.bread = extent r.stored) : r.stored = r.packet.frame.encode := by
  have hheader : 2 ≤ r.bread := by
    by_contra hlt
    rw [extent_stored_of_lt (by omega)] at h
    omega
  rw [extent_stored_of_header hheader] at h
  have hvalue := r.packet.value_length
  have hlen : (r.packet.value.take r.packet.length.toNat).length =
      r.packet.length.toNat := by
    rw [List.length_take, hvalue]
    omega
  have hbread : r.bread - 2 = r.packet.length.toNat := by omega
  simp only [r.stored_of_header hheader, hbread, Frame.encode, SPacket.frame, hlen,
    UInt8.ofNat_toNat]

theorem Receiver.waiting_setReadSize {realloc : ℕ → Bool}
    (halloc : ∀ n, realloc n = true) {r : Receiver} {size : ℕ}
    (hle : r.bread ≤ 256) (hlt : r.bread < extent r.stored)
    (hsize : size = extent r.stored - r.bread) :
    (r.setReadSize realloc size).Waiting := by
  have hcount : (r.setReadSize realloc size).read.count = size :=
    asyncSetReadSize_count halloc r.read size
  exact ⟨hle, hlt, Or.inl (hcount.trans hsize)⟩

/-- Everything a read can do to a session: it is dropped because the header
announced too much, it adds to the current frame, or it completes it. -/
theorem Session.recv_cases {π : Type*} {realloc : ℕ → Bool}
    (halloc : ∀ n, realloc n = true) {cb : PacketCallback π} {s t : Session π}
    {chunk : List UInt8} (hwait : s.receiver.Waiting)
    (h : s.recv realloc cb chunk = some t) :
    (Oversized 254 s.receiver.stored ∧ t = s) ∨
    (t.receiver.Waiting ∧ t.receiver.stored = s.receiver.stored ++ chunk ∧
      t.user = s.user ∧ t.delivered = s.delivered) ∨
    (t.receiver.Waiting ∧ t.receiver.stored = [] ∧
      ∃ p : SPacket, s.receiver.stored ++ chunk = p.frame.encode ∧
        t.user = (cb s.user p).1 ∧ t.delivered = s.delivered ++ [p]) := by
  unfold Session.recv at h
  split at h
  case isFalse => exact absurd h (by simp)
  case isTrue hasked =>
    replace h := (Option.some.inj h).symm
    have hcount := hwait.count_le
    by_cases hfit : s.receiver.bread + chunk.length ≤ 256
    · have hstored := Receiver.stored_store hfit
      have hle := hwait.bread_store_le hasked
      have hremaining := Receiver.remaining_eq hle
      have hbread : (s.receiver.store chunk).bread = s.receiver.bread + chunk.length := rfl
      simp only [adapterRecv, maxPacketSize_eq, if_pos hfit] at h
      by_cases hdone : (s.receiver.store chunk).remaining = 0
      · right; right
        simp only [if_pos hdone] at h
        have hfull := Receiver.stored_eq_encode (r := s.receiver.store chunk) (by omega)
          (by omega)
        subst h
        refine ⟨?_, rfl, (s.receiver.store chunk).packet, hstored ▸ hfull, rfl, rfl⟩
        have hempty : ∀ r : Receiver, r.bread = 0 → extent r.stored = 2 := by
          intro r hr
          exact r.extent_stored_of_lt (by omega)
        apply Receiver.waiting_setReadSize halloc
        · exact Nat.zero_le _
        · rw [hempty _ rfl]
          exact Nat.zero_lt_two
        · rw [hempty _ rfl]
          rfl
      · right; left
        simp only [if_neg hdone] at h
        subst h
        refine ⟨?_, hstored, rfl, ?_⟩
        · exact Receiver.waiting_setReadSize halloc (by omega) (by omega) hremaining
        · exact List.append_nil _
    · left
      simp only [adapterRecv, maxPacketSize_eq, if_neg hfit] at h
      -- only a frame that ends behind the buffer lets a read go past its end
      have hheader : 2 ≤ s.receiver.bread := by
        by_contra hlt
        rw [s.receiver.extent_stored_of_lt (by omega)] at hcount
        omega
      have hlength := s.receiver.packet.length.toNat_lt
      rw [s.receiver.extent_stored_of_header hheader] at hcount
      refine ⟨?_, ?_⟩
      · rw [s.receiver.stored_of_header hheader]
        change 254 < s.receiver.packet.length.toNat
        omega
      · subst h
        simp

/-- The bytes read so far are the frames of the delivered packets followed by
the bytes in the buffer; behind a header that announces too much, they stay
there. -/
def Session.Follows {π : Type*} (s : Session π) (stream : List UInt8) : Prop :=
  ∃ tail, stream = (s.delivered.map SPacket.frame).flatMap Frame.encode ++ tail ∧
    (tail = s.receiver.stored ∨ Oversized 254 tail ∧ Oversized 254 s.receiver.stored)

theorem Session.follows_recv {π : Type*} {realloc : ℕ → Bool}
    (halloc : ∀ n, realloc n = true) {cb : PacketCallback π} {s t : Session π}
    {chunk stream : List UInt8} (hwait : s.receiver.Waiting) (hs : s.Follows stream)
    (h : s.recv realloc cb chunk = some t) : t.Follows (stream ++ chunk) := by
  obtain ⟨tail, rfl, htail⟩ := hs
  rcases Session.recv_cases halloc hwait h with
    ⟨hover, rfl⟩ | ⟨_, hstored, _, hdelivered⟩ | ⟨_, hstored, p, hp, _, hdelivered⟩
  · have htail' : Oversized 254 tail := by
      rcases htail with rfl | ⟨htail, _⟩
      · exact hover
      · exact htail
    exact ⟨tail ++ chunk, List.append_assoc .., Or.inr ⟨htail'.append chunk, hover⟩⟩
  · refine ⟨tail ++ chunk, by rw [hdelivered, List.append_assoc], ?_⟩
    rcases htail with rfl | ⟨htail, hover⟩
    · exact Or.inl hstored.symm
    · exact Or.inr ⟨htail.append chunk, hstored ▸ hover.append chunk⟩
  · rcases htail with rfl | ⟨_, hover⟩
    · refine ⟨[], ?_, Or.inl hstored.symm⟩
      rw [hdelivered, List.append_assoc, hp]
      simp
    · -- the buffer cannot complete a frame that is too long for it
      exact absurd (hp ▸ hover.append chunk) (p.frame.not_oversized maxPacketValueSize_lt)

theorem Session.waiting_recv {π : Type*} {realloc : ℕ → Bool}
    (halloc : ∀ n, realloc n = true) {cb : PacketCallback π} {s t : Session π}
    {chunk : List UInt8} (hwait : s.receiver.Waiting)
    (h : s.recv realloc cb chunk = some t) : t.receiver.Waiting := by
  rcases Session.recv_cases halloc hwait h with ⟨_, rfl⟩ | ⟨ht, _⟩ | ⟨ht, _⟩
  · exact hwait
  · exact ht
  · exact ht

def callAll {π : Type*} (cb : PacketCallback π) (u : π) (ps : List SPacket) : π :=
  ps.foldl (fun u p => (cb u p).1) u

theorem Session.user_recv {π : Type*} {realloc : ℕ → Bool}
    (halloc : ∀ n, realloc n = true) {cb : PacketCallback π} {u : π} {s t : Session π}
    {chunk : List UInt8} (hwait : s.receiver.Waiting)
    (hs : s.user = callAll cb u s.delivered) (h : s.recv realloc cb chunk = some t) :
    t.user = callAll cb u t.delivered := by
  rcases Session.recv_cases halloc hwait h with
    ⟨_, rfl⟩ | ⟨_, _, huser, hdelivered⟩ | ⟨_, _, p, _, huser, hdelivered⟩
  · exact hs
  · rw [huser, hdelivered, hs]
  · rw [huser, hdelivered, hs, callAll, callAll, List.foldl_append]
    rfl

theorem Session.exec_recv {π : Type*} {realloc : ℕ → Bool}
    (halloc : ∀ n, realloc n = true) {cb : PacketCallback π} {u : π} {s t : Session π}
    {chunks : List (List UInt8)} {stream : List UInt8} (hwait : s.receiver.Waiting)
    (hs : s.Follows stream) (huser : s.user = callAll cb u s.delivered)
    (hrun : exec (Session.recv realloc cb) s chunks = some t) :
    t.receiver.Waiting ∧ t.Follows (stream ++ chunks.flatten) ∧
      t.user = callAll cb u t.delivered := by
  induction chunks generalizing s stream with
  | nil =>
      rw [exec_nil, Option.some.injEq] at hrun
      subst hrun
      rw [List.flatten_nil, List.append_nil]
      exact ⟨hwait, hs, huser⟩
  | cons chunk chunks ih =>
      obtain ⟨v, hv, hrest⟩ := exec_cons_eq_some hrun
      have ht := ih (Session.waiting_recv halloc hwait hv)
        (Session.follows_recv halloc hwait hs hv)
        (Session.user_recv halloc hwait huser hv) hrest
      rwa [List.flatten_cons, ← List.append_assoc]

theorem Session.follows_start {π : Type*} (u : π) : (Session.start u).Follows [] :=
  ⟨[], rfl, Or.inl rfl⟩

theorem Receiver.Waiting.takeFrame_stored {r : Receiver} (h : r.Waiting) :
    takeFrame maxPacketValueSize r.stored = none := by
  apply takeFrame_eq_none_of_lt_extent
  rw [r.stored_length h.bread_le]
  exact h.bread_lt

theorem Receiver.Waiting.stored_ne {r : Receiver} (h : r.Waiting) (f : PacketFrame)
    (bytes : List UInt8) : r.stored ≠ f.encode ++ bytes := by
  intro heq
  have hnone := h.takeFrame_stored
  rw [heq, takeFrame_encode_append maxPacketValueSize_lt] at hnone
  exact absurd hnone (by simp)

theorem Session.Follows.frames_eq {π : Type*} {s : Session π} {stream : List UInt8}
    (h : s.Follows stream) (hwait : s.receiver.Waiting) :
    frames maxPacketValueSize stream = s.delivered.map SPacket.frame ∧
      (pending maxPacketValueSize stream = s.receiver.stored ∨
        Oversized 254 (pending maxPacketValueSize stream)) := by
  obtain ⟨tail, rfl, htail⟩ := h
  have hnone : takeFrame maxPacketValueSize tail = none := by
    rcases htail with rfl | ⟨htail, _⟩
    · exact hwait.takeFrame_stored
    · exact htail.takeFrame_eq_none
  rw [frames_flatMap_append maxPacketValueSize_lt, frames_of_takeFrame_none hnone,
    pending_flatMap_append maxPacketValueSize_lt, pending_of_takeFrame_none hnone,
    List.append_nil]
  exact ⟨rfl, htail.imp id And.left⟩

/-- What a whole session from the start has read, delivered and left waiting. -/
theorem Session.run_frames {π : Type*} {realloc : ℕ → Bool}
    (halloc : ∀ n, realloc n = true) {cb : PacketCallback π} {u : π}
    {chunks : List (List UInt8)} {s : Session π}
    (hrun : exec (Session.recv realloc cb) (Session.start u) chunks = some s) :
    s.receiver.Waiting ∧ s.user = callAll cb u s.delivered ∧
      frames maxPacketValueSize chunks.flatten = s.delivered.map SPacket.frame ∧
      (pending maxPacketValueSize chunks.flatten = s.receiver.stored ∨
        Oversized 254 (pending maxPacketValueSize chunks.flatten)) := by
  obtain ⟨hwait, hfollows, huser⟩ := Session.exec_recv halloc Receiver.waiting_start
    (Session.follows_start u) rfl hrun
  exact ⟨hwait, huser, hfollows.frames_eq hwait⟩

/-- The serial device has something to ask for behind each read. -/
theorem Session.count_recv {π : Type*} {realloc : ℕ → Bool} (halloc : ∀ n, realloc n = true)
    {cb : PacketCallback π} {s t : Session π} {chunk : List UInt8} (hwait : s.receiver.Waiting)
    (h : s.recv realloc cb chunk = some t) : t.receiver.read.count ≠ 0 := by
  unfold Session.recv at h
  split at h
  case isFalse => exact absurd h (by simp)
  case isTrue hasked =>
    replace h := (Option.some.inj h).symm
    by_cases hfit : s.receiver.bread + chunk.length ≤ 256
    · simp only [adapterRecv, maxPacketSize_eq, if_pos hfit] at h
      by_cases hdone : (s.receiver.store chunk).remaining = 0
      · simp only [if_pos hdone] at h
        subst h
        exact (asyncSetReadSize_count halloc _ _).trans_ne (by decide)
      · simp only [if_neg hdone] at h
        subst h
        exact (asyncSetReadSize_count halloc _ _).trans_ne hdone
    · simp only [adapterRecv, maxPacketSize_eq, if_neg hfit] at h
      subst h
      -- what was read does not fit, so something was asked for
      intro hzero
      have hle := hwait.bread_le
      have hnone : s.receiver.read.count = 0 := hzero
      omega

theorem Session.run_count {π : Type*} {realloc : ℕ → Bool} (halloc : ∀ n, realloc n = true)
    {cb : PacketCallback π} {u : π} {chunks : List (List UInt8)} {s : Session π}
    (hrun : exec (Session.recv realloc cb) (Session.start u) chunks = some s)
    (hne : chunks ≠ []) : s.receiver.read.count ≠ 0 := by
  cases chunks with
  | nil => exact absurd rfl hne
  | cons chunk chunks =>
      obtain ⟨v, hv, hrest⟩ := exec_cons_eq_some hrun
      have hfirst : v.receiver.Waiting ∧ v.receiver.read.count ≠ 0 :=
        ⟨Session.waiting_recv halloc Receiver.waiting_start hv,
          Session.count_recv halloc Receiver.waiting_start hv⟩
      have hlast : s.receiver.Waiting ∧ s.receiver.read.count ≠ 0 :=
        exec_invariant (I := fun s => s.receiver.Waiting ∧ s.receiver.read.count ≠ 0)
          (fun _ _ _ hs h =>
            ⟨Session.waiting_recv halloc hs.1 h, Session.count_recv halloc hs.1 h⟩)
          hfirst hrest
      exact hlast.2

/-- The packets passed to the callback are the frames of the stream, whatever
the reads and the callback do. In every state `bread` fits the buffer, the next
read asks for something and stays inside the frame the stream is in, and
whatever it returns, no subtraction of `remaining` goes below zero. -/
theorem adapterRecv_delivers_frames {π : Type*} {realloc : ℕ → Bool}
    (halloc : ∀ n, realloc n = true) (cb : PacketCallback π) (u : π)
    {chunks : List (List UInt8)} {s : Session π}
    (hrun : exec (Session.recv realloc cb) (Session.start u) chunks = some s) :
    s.delivered.map SPacket.frame = frames maxPacketValueSize chunks.flatten ∧
    s.user = callAll cb u s.delivered ∧
    s.receiver.bread ≤ maxPacketSize ∧
    (chunks ≠ [] → 0 < s.receiver.read.count) ∧
    s.receiver.bread + s.receiver.read.count ≤ extent s.receiver.stored ∧
    (pending maxPacketValueSize chunks.flatten = s.receiver.stored ∨
      Oversized maxPacketValueSize (pending maxPacketValueSize chunks.flatten)) ∧
    ∀ buf : List UInt8, buf.length ≤ s.receiver.read.count →
      s.receiver.bread + buf.length ≤ maxPacketSize →
      let r := s.receiver.store buf
      r.bread < sizeofHeader ∨
        sizeofHeader ≤ r.bread ∧ r.bread - sizeofHeader ≤ r.packet.length.toNat := by
  obtain ⟨hwait, huser, hframes, hpending⟩ := Session.run_frames halloc hrun
  refine ⟨hframes.symm, huser, hwait.bread_le,
    fun hne => Nat.pos_of_ne_zero (Session.run_count halloc hrun hne), hwait.count_le, hpending, ?_⟩
  intro buf hbuf _
  have hle := hwait.bread_store_le hbuf
  rw [sizeofHeader_eq]
  by_cases hlt : (s.receiver.store buf).bread < 2
  · exact Or.inl hlt
  · rw [Receiver.extent_stored_of_header (by omega)] at hle
    exact Or.inr ⟨by omega, by omega⟩

theorem adapterRecv_delivers_frames_split :
    ∃ s : Session ℕ, exec (Session.recv (fun _ => true) fun u p => (u + 1, p, -1))
        (Session.start 0) [[], [4, 1], [], [9]] = some s ∧
      s.delivered.map SPacket.frame = frames maxPacketValueSize [4, 1, 9] := by
  have hrun : (exec (Session.recv (fun _ => true) fun u p => (u + 1, p, -1))
      (Session.start 0) [[], [4, 1], [], [9]]).isSome := by decide +kernel
  obtain ⟨s, hs⟩ := Option.isSome_iff_exists.1 hrun
  exact ⟨s, hs, (adapterRecv_delivers_frames (fun _ => rfl) _ 0 hs).1⟩

end SerialUsb

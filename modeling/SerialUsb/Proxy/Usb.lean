import SerialUsb.Memory.Copy
import SerialUsb.Proxy.Endpoints

/-!
# The USB side of the proxy

What `gusb.c` does for the opened and registered device: its endpoint tables,
the transfers that were submitted and not completed yet, and the two calls that
submit transfers. The outcomes of the coming submissions are listed in the
state; when the list has run out, they succeed.
-/

namespace SerialUsb

open Memory

/-- One direction of an entry of `usbdevices[device].endpoints`; type 0 means that
there is no such endpoint. -/
structure EndpointInfo where
  type : UInt8
  size : UInt16
  deriving DecidableEq, Repr

abbrev transferTypeControl : UInt8 := 0

abbrev transferTypeInterrupt : UInt8 := 3

/-- `struct libusb_transfer`. The buffer of a control transfer starts with the
setup packet. -/
structure Transfer where
  endpoint : UInt8
  type : UInt8
  buffer : List UInt8
  length : ℕ
  deriving DecidableEq, Repr

structure Usb where
  inInfo : Vector EndpointInfo endpointMaxNumber
  outInfo : Vector EndpointInfo endpointMaxNumber
  transfers : List Transfer
  submits : List Bool
  deriving DecidableEq

/-- `get_endpoint` with a count of 0; `none` is `INVALID_ENDPOINT_INDEX`. -/
def getEndpoint (usb : Usb) (endpoint : UInt8) (directionIn : Bool) :
    Option EndpointInfo :=
  if endpointIn endpoint ≠ directionIn then none
  else if h : endpointNumber endpoint = 0 then none
  else
    have hindex : endpointNumber endpoint - 1 < endpointMaxNumber := by
      have hlt := Nat.mod_lt endpoint.toNat (show 0 < 16 by decide)
      unfold endpointNumber at h ⊢
      rw [endpointMaxNumber_eq]
      omega
    let info := if directionIn then usb.inInfo[endpointNumber endpoint - 1]
      else usb.outInfo[endpointNumber endpoint - 1]
    if info.type = 0 then none else some info

/-- `submit_transfer`: a transfer that cannot be submitted leaves the table. -/
def submitTransfer (usb : Usb) (transfer : Transfer) : Usb × Int :=
  match usb.submits with
  | [] => ({ usb with transfers := usb.transfers ++ [transfer] }, 0)
  | true :: rest =>
      ({ usb with transfers := usb.transfers ++ [transfer], submits := rest }, 0)
  | false :: rest => ({ usb with submits := rest }, -1)

def gusbPoll (usb : Usb) (endpoint : UInt8) : Usb × Int :=
  match getEndpoint usb endpoint true with
  | none => (usb, -1)
  | some info =>
      let size := info.size.toNat
      if info.type = transferTypeInterrupt then
        submitTransfer usb ⟨endpoint, transferTypeInterrupt, List.replicate size 0, size⟩
      else (usb, -1)

/-- The `count` of `gusb_write` when it allocates its buffer, an `unsigned int`. -/
def writeCount (endpoint : UInt8) (buf : List UInt8) (count : ℕ) : ℕ :=
  if endpoint = 0 ∧ buf.headD 0 &&& 0x80 ≠ 0 then
    (count + (ofLe16 (buf.getD 6 0) (buf.getD 7 0)).toNat) % 2 ^ 32
  else count

/-- `gusb_write`, where `buf` is the memory that can be read at the pointer. -/
def gusbWrite (usb : Usb) (endpoint : UInt8) (buf : List UInt8) (count : ℕ) :
    Usb × Int :=
  if endpoint ≠ 0 ∧ getEndpoint usb endpoint false = none then (usb, -1)
  else
    let type := if endpoint = 0 then transferTypeControl else transferTypeInterrupt
    let count := writeCount endpoint buf count
    submitTransfer usb ⟨endpoint, type, buf.take count, count⟩

/-- The `memcpy` of `gusb_write` is made, with a count that wrapped below 0. -/
def writeFaults (usb : Usb) (endpoint : UInt8) (buf : List UInt8) (count : ℕ) : Bool :=
  (endpoint = 0 ∨ getEndpoint usb endpoint false ≠ none) ∧
    2 ^ 31 ≤ writeCount endpoint buf count

/-- The status of a completed transfer, with the bytes transferred if there was
no error. -/
inductive TransferStatus where
  | completed (data : List UInt8)
  | timedOut
  | stall
  | cancelled
  | error
  deriving DecidableEq, Repr

def TransferStatus.code : TransferStatus → Int
  | .completed data => data.length
  | .timedOut => -1
  | .stall => -2
  | .cancelled => -3
  | .error => -3

def TransferStatus.data : TransferStatus → List UInt8
  | .completed data => data
  | _ => []

theorem submitTransfer_of_nil {usb : Usb} (h : usb.submits = []) (transfer : Transfer) :
    submitTransfer usb transfer =
      ({ usb with transfers := usb.transfers ++ [transfer] }, 0) := by
  unfold submitTransfer
  rw [h]

end SerialUsb

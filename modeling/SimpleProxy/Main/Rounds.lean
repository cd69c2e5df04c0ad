import SimpleProxy.Lib.Loop
import SimpleProxy.Main.Connection

/-!
# The transfer loops, round by round

`recv_into_buffer` and `send_from_buffer` as they are written, with no bound on their
rounds and with `*len` and the differences from it in `size_t`.
-/

namespace SimpleProxy

open Interact CString

/-- The variables of a transfer: the bytes in `buffer`, `*len` and `total`. -/
structure Transfer where
  buffer : Bytes
  len : UInt64
  total : Int

/-- One round of `recv_into_buffer`; the result is its return value and what it leaves. -/
def recvRound (side : Side) (fd : Fd) (capacity : UInt64) : Loop Answer Transfer (Int × Transfer) :=
  fun t => do
    match ← perform (.recv side fd (capacity - t.len).toNat) with
    | .data bs =>
      return .inl
        { buffer := t.buffer ++ bs
          len := t.len + .ofNat bs.length
          total := t.total + bs.length }
    | .eof => return .inr (if 0 < t.total then t.total else -2, t)
    | .again => return .inr (t.total, t)
    | .error => return .inr (-1, t)

/-- One round of `send_from_buffer`. -/
def sendRound (side : Side) (fd : Fd) : Loop Answer Transfer (Int × Transfer) :=
  fun t => do
    if 0 < t.len then
      match ← perform (.send side fd (t.buffer.take t.len.toNat) .noSignal) with
      | .sent s =>
        if 0 < s then
          -- `memmove` of the `*len - s` bytes from `buffer + s` on
          return .inl
            { buffer := (t.buffer.drop s).take (t.len - .ofNat s).toNat
              len := t.len - .ofNat s
              total := t.total + s }
        else
          return .inr (-1, t)
      | .again => return .inr (t.total, t)
      | .error => return .inr (-1, t)
    else
      return .inr (t.total, t)

end SimpleProxy

import MarketLoad.Venue.Link

/-!
# One write at a time

The steps of `Link.write` as equations: nothing is left, a part is taken, no part is taken, or
waiting ends without leave to write.
-/

namespace MarketLoad.Venue.Link

variable {deadline : Nat} {l l' : Link} {bytes : Bytes} {result : Written}

/-- The link after it has taken the part of a command for which there is room. -/
def part (l : Link) (bytes : Bytes) : Link :=
  { l with connection := l.connection.take l.now (bytes.take (l.portion bytes)) }

@[simp] theorem write_nil : write deadline l [] = (.done, l) := by
  rw [write, dif_pos rfl]

theorem write_of_ready (hne : bytes ≠ []) (hready : untilWritable deadline l = (.done, l'))
    (hn : 0 < l'.portion bytes) :
    write deadline l bytes = write deadline (l'.part bytes) (bytes.drop (l'.portion bytes)) := by
  rw [write, dif_neg hne, hready]
  exact dif_pos hn

theorem write_of_full (hne : bytes ≠ []) (hready : untilWritable deadline l = (.done, l'))
    (hn : ¬ 0 < l'.portion bytes) : write deadline l bytes = (.failed "write zero", l') := by
  rw [write, dif_neg hne, hready]
  exact dif_neg hn

theorem write_of_not_ready (hne : bytes ≠ []) (hresult : result ≠ .done)
    (h : untilWritable deadline l = (result, l')) : write deadline l bytes = (result, l') := by
  rw [write, dif_neg hne, h]
  cases result with
  | done => exact absurd rfl hresult
  | failed reason => rfl
  | timedOut => rfl

end MarketLoad.Venue.Link

import MarketLoad.Proofs.Clock
import MarketLoad.Proofs.Venue.Writing

/-!
# The client's clock

The clock runs forwards: no operation on a link leaves it at an earlier time (`Link.now_le_write`,
`Link.now_le_read`, `Link.now_le_farewell`). And it stops at the deadline: an operation is over by
then, or at once if it begins later (`Link.now_write_le`, `Link.now_read_le`,
`Link.now_farewell_le`). An attempt to connect is over by its deadline too (`waits_connect`).
-/

namespace MarketLoad.Venue

namespace Link

variable {deadline : Nat} {l l' : Link}

theorem now_le_expire (deadline : Nat) (l : Link) : l.now ≤ (l.expire deadline).now :=
  Nat.le_max_left ..

theorem now_le_untilWritable (deadline : Nat) (l : Link) :
    l.now ≤ (untilWritable deadline l).2.now := by
  induction l using untilWritable.induct deadline with
  | case1 l h => exact Nat.le_of_eq (by rw [untilWritable, h])
  | case2 l reason h => exact Nat.le_of_eq (by rw [untilWritable, h])
  | case3 l h => rw [untilWritable, h]; exact now_le_expire ..
  | case4 l time h hlt ih =>
    rw [untilWritable, h]
    simp only [dif_pos hlt]
    exact Nat.le_trans (Nat.le_of_lt hlt.1) ih
  | case5 l time h hlt =>
    rw [untilWritable, h]
    simp only [dif_neg hlt]
    exact now_le_expire ..

theorem now_le_write (deadline : Nat) (l : Link) (bytes : Bytes) :
    l.now ≤ (write deadline l bytes).2.now := by
  induction l, bytes using write.induct deadline with
  | case1 l => exact Nat.le_of_eq (by rw [write_nil])
  | case2 l bytes hne l' hready hn ih =>
    have hle := now_le_untilWritable deadline l
    rw [hready] at hle
    rw [write_of_ready hne hready hn]
    exact Nat.le_trans hle ih
  | case3 l bytes hne l' hready hn =>
    have hle := now_le_untilWritable deadline l
    rw [hready] at hle
    rwa [write_of_full hne hready hn]
  | case4 l bytes hne result l' hresult h =>
    have hle := now_le_untilWritable deadline l
    rw [h] at hle
    rwa [write_of_not_ready hne hresult h]

private theorem now_le_readQueue (deadline now : Nat) (queue : List Arrival) :
    now ≤ (readQueue deadline now queue).2.1 := by
  induction queue generalizing now with
  | nil => exact Nat.le_max_left ..
  | cons a queue ih =>
    obtain ⟨due, event⟩ := a
    unfold readQueue
    split
    · exact Nat.le_max_left ..
    · cases event with
      | ending => exact Nat.le_max_left ..
      | breaking reason => exact Nat.le_max_left ..
      | data bytes =>
        cases bytes with
        | nil => exact Nat.le_trans (Nat.le_max_left ..) (ih _)
        | cons b bytes => exact Nat.le_max_left ..

theorem now_le_read (deadline : Nat) (l : Link) : l.now ≤ (l.read deadline).2.now := by
  unfold read
  split
  · exact Nat.le_refl _
  · exact now_le_readQueue ..

theorem now_le_farewell (deadline : Nat) (l : Link) : l.now ≤ (l.farewell deadline).now := by
  unfold farewell
  split
  · exact Nat.le_refl _
  · exact Nat.le_refl _
  · exact now_le_expire ..

/-! ### Deadlines -/

theorem now_untilWritable_le (deadline : Nat) (l : Link) :
    (untilWritable deadline l).2.now ≤ max l.now deadline := by
  induction l using untilWritable.induct deadline with
  | case1 l h => rw [untilWritable, h]; exact Nat.le_max_left ..
  | case2 l reason h => rw [untilWritable, h]; exact Nat.le_max_left ..
  | case3 l h => rw [untilWritable, h]; exact Nat.le_refl _
  | case4 l time h hlt ih =>
    rw [untilWritable, h]
    simp only [dif_pos hlt]
    have hdeadline : time ≤ max l.now deadline := Nat.le_trans hlt.2 (Nat.le_max_right ..)
    exact Nat.le_trans ih (Nat.max_le.2 ⟨hdeadline, Nat.le_max_right ..⟩)
  | case5 l time h hlt =>
    rw [untilWritable, h]
    simp only [dif_neg hlt]
    exact Nat.le_refl _

theorem now_write_le (deadline : Nat) (l : Link) (bytes : Bytes) :
    (write deadline l bytes).2.now ≤ max l.now deadline := by
  induction l, bytes using write.induct deadline with
  | case1 l => rw [write_nil]; exact Nat.le_max_left ..
  | case2 l bytes hne l' hready hn ih =>
    have hle := now_untilWritable_le deadline l
    rw [hready] at hle
    rw [write_of_ready hne hready hn]
    exact Nat.le_trans ih (Nat.max_le.2 ⟨hle, Nat.le_max_right ..⟩)
  | case3 l bytes hne l' hready hn =>
    have hle := now_untilWritable_le deadline l
    rw [hready] at hle
    rwa [write_of_full hne hready hn]
  | case4 l bytes hne result l' hresult h =>
    have hle := now_untilWritable_le deadline l
    rw [h] at hle
    rwa [write_of_not_ready hne hresult h]

private theorem now_readQueue_le (deadline now : Nat) (queue : List Arrival) :
    (readQueue deadline now queue).2.1 ≤ max now deadline := by
  induction queue generalizing now with
  | nil => exact Nat.le_refl _
  | cons a queue ih =>
    obtain ⟨due, event⟩ := a
    unfold readQueue
    split
    · exact Nat.le_refl _
    · -- What has arrived is due by the deadline, or was due already.
      rename_i hdue
      have hle : max now due ≤ max now deadline := by
        dsimp only at hdue
        omega
      cases event with
      | ending => exact hle
      | breaking reason => exact hle
      | data bytes =>
        cases bytes with
        | nil => exact Nat.le_trans (ih _) (Nat.max_le.2 ⟨hle, Nat.le_max_right ..⟩)
        | cons b bytes => exact hle

theorem now_read_le (deadline : Nat) (l : Link) : (l.read deadline).2.now ≤ max l.now deadline := by
  unfold read
  split
  · exact Nat.le_max_left ..
  · exact now_readQueue_le ..

theorem now_farewell_le (deadline : Nat) (l : Link) :
    (l.farewell deadline).now ≤ max l.now deadline := by
  unfold farewell
  split
  · exact Nat.le_max_left ..
  · exact Nat.le_max_left ..
  · exact Nat.le_refl _

end Link

/-! ### Connecting -/

/-- When an attempt to connect was over. -/
def Attempt.time : Attempt → Nat
  | connected l => l.now
  | failed time _ => time
  | crashed time _ => time

theorem waits_connect {start deadline : Nat} {span : Span} (endpoint : String) (peer : Peer)
    (h : Clock.deadline start span = .ok deadline) :
    Clock.Waits start span.millisUp (connect endpoint peer start deadline).time := by
  obtain ⟨-, hdeadline⟩ := Clock.of_deadline_eq_ok h
  have hlate : Clock.Waits start span.millisUp deadline :=
    .of_deadline h (by omega) (Nat.le_max_right ..)
  unfold connect
  cases peer.delay with
  | none => exact hlate
  | some delay =>
    dsimp only
    split
    · exact hlate
    · rename_i hnow
      have htaken : Clock.Waits start span.millisUp (start + delay) :=
        .of_deadline h (Nat.le_add_right ..) (by omega)
      cases peer.reception with
      | accept => exact htaken
      | refuse reason => exact htaken
      | fail failure => exact htaken
      | crash text => exact htaken

end MarketLoad.Venue

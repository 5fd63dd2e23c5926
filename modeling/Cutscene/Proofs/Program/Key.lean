import Cutscene.Event.Library
import Cutscene.Program.Key
import Mathlib.Data.List.Infix
import Mathlib.Data.List.TakeWhile
/-!
# Programs — keys and their texts

A key is an event and the path from its root to a body (`BodyKey.path`, the
innermost part first). `BodyKey.Below` is the order by paths; two parts of
one key share nothing below them (`Below.eq_of_child`).

A snapshot and a look-up by text know keys by `BodyKey.text` only. For events
whose names have no slash the text determines the key (`text_injective`), and
the part before the first slash is the event (`eventOfText_text`): a slash
ends every part, and no part contains one.
-/

namespace Cutscene

namespace BodyKey

/-- The parts of the key below its root, the innermost first. -/
def path : BodyKey → List (Nat × Slot)
  | .root _ => []
  | .child parent position slot => (position, slot) :: parent.path

@[simp] theorem event_child (k : BodyKey) (position : Nat) (slot : Slot) :
    (child k position slot).event = k.event := rfl

@[simp] theorem path_child (k : BodyKey) (position : Nat) (slot : Slot) :
    (child k position slot).path = (position, slot) :: k.path := rfl

/-- A key is its event and its path. -/
theorem eq_of_path {k k' : BodyKey} (he : k.event = k'.event) (hp : k.path = k'.path) :
    k = k' := by
  induction k generalizing k' with
  | root event =>
    cases k' with
    | root event' => exact congrArg root he
    | child parent position slot => simp [path] at hp
  | child parent position slot ih =>
    cases k' with
    | root event' => simp [path] at hp
    | child parent' position' slot' =>
      simp only [path_child, List.cons.injEq, Prod.mk.injEq] at hp
      obtain ⟨⟨hposition, hslot⟩, hp⟩ := hp
      have hparent : parent = parent' := ih he hp
      rw [hparent, hposition, hslot]

/-- The second key is the first or stands somewhere below it. -/
def Below (k k' : BodyKey) : Prop := k.event = k'.event ∧ k.path <:+ k'.path

theorem Below.refl (k : BodyKey) : Below k k := ⟨rfl, List.suffix_refl _⟩

theorem Below.trans {k k' k'' : BodyKey} (h : Below k k') (h' : Below k' k'') : Below k k'' :=
  ⟨h.1.trans h'.1, h.2.trans h'.2⟩

theorem below_child (k : BodyKey) (position : Nat) (slot : Slot) :
    Below k (child k position slot) :=
  ⟨rfl, List.suffix_cons _ _⟩

/-- **Parts of one key share nothing below them.** -/
theorem Below.eq_of_child {k x : BodyKey} {p p' : Nat} {s s' : Slot}
    (h : Below (child k p s) x) (h' : Below (child k p' s') x) :
    child k p s = child k p' s' := by
  have hp : (child k p s).path = (child k p' s').path :=
    (List.suffix_of_suffix_length_le h.2 h'.2 (by simp)).eq_of_length (by simp)
  exact eq_of_path rfl hp

/-- Nothing stands below one of its own parts. -/
theorem not_below_of_child (k : BodyKey) (p : Nat) (s : Slot) : ¬ Below (child k p s) k := by
  intro h
  have := h.2.length_le
  simp only [path_child, List.length_cons] at this
  omega

/-! ## Texts -/

theorem toList_text_child (k : BodyKey) (position : Nat) (slot : Slot) :
    (child k position slot).text.toList =
      k.text.toList ++ '/' :: ((toString position).toList ++ ':' :: slot.text.toList) := by
  simp [text, String.toList_append]

end BodyKey

/-- No digit is another character. -/
theorem not_mem_toString {c : Char} (hc : c.isDigit = false) (n : Nat) :
    c ∉ (toString n).toList := by
  intro h
  have hd : c ∈ Nat.toDigits 10 n := by simpa [Nat.repr] using h
  have := Nat.isDigit_of_mem_toDigits (by omega) (by omega) hd
  rw [hc] at this
  exact absurd this (by decide)

theorem toString_injective {m n : Nat} (h : (toString m).toList = (toString n).toList) : m = n := by
  have hdigits : Nat.toDigits 10 m = Nat.toDigits 10 n := by simpa [Nat.repr] using h
  have hvalue := congrArg (Nat.ofDigitChars 10 · 0) hdigits
  simpa only [Nat.ofDigitChars_toDigits (by omega : 1 < 10) (by omega : 10 ≤ 10)] using hvalue

/-- A slot's name has no slash. -/
theorem Slot.not_mem_text (s : Slot) : '/' ∉ s.text.toList := by
  have hd := fun n => not_mem_toString (c := '/') (by decide) n
  cases s with
  | branch index => simpa [Slot.text] using hd index
  | case index => simpa [Slot.text] using hd index
  | choice index => simpa [Slot.text] using hd index
  | _ => decide

theorem Slot.text_injective {s s' : Slot} (h : s.text.toList = s'.text.toList) : s = s' := by
  have hd : ∀ {m n : Nat}, Nat.toDigits 10 m = Nat.toDigits 10 n → m = n := fun h =>
    toString_injective (by simpa [Nat.repr] using h)
  cases s <;> cases s' <;> simp [Slot.text] at h ⊢ <;> exact hd h

/-- Two texts cut at the last mark of a sort are cut alike. -/
theorem append_cons_inj {α : Type} {mark : α} {a a' b b' : List α} (hb : mark ∉ b)
    (hb' : mark ∉ b') (h : a ++ mark :: b = a' ++ mark :: b') : a = a' ∧ b = b' := by
  -- were the cuts in different places, one end would hold the mark of the other
  rcases List.append_eq_append_iff.1 h with ⟨c, rfl, hc⟩ | ⟨c, rfl, hc⟩
  · cases c with
    | nil => simpa using hc
    | cons x c =>
      simp only [List.cons_append, List.cons.injEq] at hc
      rw [hc.2] at hb
      simp at hb
  · cases c with
    | nil => simpa [eq_comm] using hc
    | cons x c =>
      simp only [List.cons_append, List.cons.injEq] at hc
      rw [hc.2] at hb'
      simp at hb'

namespace BodyKey

/-- A part of a key's text has no slash. -/
theorem not_mem_part (position : Nat) (slot : Slot) :
    '/' ∉ (toString position).toList ++ ':' :: slot.text.toList := by
  simp only [List.mem_append, List.mem_cons, not_or]
  exact ⟨not_mem_toString (by decide) position, by decide, slot.not_mem_text⟩

/-- Two parts with one text are the same. -/
theorem part_injective {p p' : Nat} {s s' : Slot}
    (h : (toString p).toList ++ ':' :: s.text.toList =
      (toString p').toList ++ ':' :: s'.text.toList) : p = p' ∧ s = s' := by
  -- the first colon ends the digits, so the cut is at the front, not at the end
  have hr := congrArg List.reverse h
  simp only [List.reverse_append, List.reverse_cons, List.append_assoc, List.singleton_append]
    at hr
  obtain ⟨hs, hp⟩ := append_cons_inj
    (by simpa using not_mem_toString (c := ':') (by decide) p)
    (by simpa using not_mem_toString (c := ':') (by decide) p') hr
  exact ⟨toString_injective (List.reverse_injective hp),
    Slot.text_injective (List.reverse_injective hs)⟩

/-- **A key's text determines the key**, among events whose names have no
slash. -/
theorem text_injective {k k' : BodyKey} (hk : '/' ∉ k.event.toList) (hk' : '/' ∉ k'.event.toList)
    (h : k.text = k'.text) : k = k' := by
  induction k generalizing k' with
  | root event =>
    cases k' with
    | root event' => exact congrArg root h
    | child parent position slot =>
      refine absurd ?_ hk
      have ht : event.toList = (child parent position slot).text.toList := congrArg _ h
      rw [show (root event).event = event from rfl, ht, toList_text_child]
      simp
  | child parent position slot ih =>
    cases k' with
    | root event' =>
      refine absurd ?_ hk'
      have ht : (child parent position slot).text.toList = event'.toList := congrArg _ h
      rw [show (root event').event = event' from rfl, ← ht, toList_text_child]
      simp
    | child parent' position' slot' =>
      have ht := congrArg String.toList h
      rw [toList_text_child, toList_text_child] at ht
      obtain ⟨hparent, hpart⟩ :=
        append_cons_inj (not_mem_part position slot) (not_mem_part position' slot') ht
      obtain ⟨hposition, hslot⟩ := part_injective hpart
      have hkeys : parent = parent' := ih hk hk' (String.toList_inj.1 hparent)
      rw [hkeys, hposition, hslot]

theorem takeWhile_text {k : BodyKey} (hk : '/' ∉ k.event.toList) (rest : List Char) :
    (k.text.toList ++ '/' :: rest).takeWhile (· ≠ '/') = k.event.toList := by
  induction k generalizing rest with
  | root event =>
    have hall : ∀ c ∈ event.toList, decide (c ≠ '/') = true := fun c hc =>
      decide_eq_true fun h => hk (h ▸ hc)
    rw [show (root event).text = event from rfl, List.takeWhile_append_of_pos hall]
    simp [BodyKey.event]
  | child parent position slot ih =>
    rw [toList_text_child, List.append_assoc, List.cons_append, ih hk]
    rfl

/-- **The part before the first slash is the event.** -/
theorem eventOfText_text {k : BodyKey} (hk : '/' ∉ k.event.toList) :
    eventOfText k.text = k.event := by
  apply String.toList_inj.1
  rw [eventOfText, String.toList_ofList]
  cases k with
  | root event =>
    exact List.takeWhile_eq_self_iff.2 fun c hc => decide_eq_true fun h => hk (h ▸ hc)
  | child parent position slot =>
    rw [toList_text_child]
    exact takeWhile_text (k := parent) hk _

end BodyKey

end Cutscene

import PreloopControl.Lib.Join
import PreloopControl.WebhookWatchdog

/-!
# The Watchdog Cursor Only Moves Forward

Every watchdog of a scope stores its cursor into the same row, one statement each. What the
row holds of the watermark, its delivery and the poll clocks is the join of all cursors
stored, so it does not matter in which order they come, how often, or from whom. The scan
cursor is no part of this: it is what the last store brought.

## Main definitions

* `WatchdogCursor.position`: The watermark with its delivery, nothing lowest.
* `WatchdogCursor.Dated`: There is a delivery only with a watermark.
* `cursorStored`: The row after a list of stores.
* `SameMarks`: What two rows may not differ in.

## Theorems

* `store_position`: A store moves to the later of two positions.
* `cursor_joins`: The row holds the maxima of all that was stored.
-/

namespace Preloop

variable {G : Type}

/-- What the row holds of a time or a delivery, nothing below everything. -/
def orNothing {α : Type} (a : Option α) : WithBot α := a

namespace WatchdogCursor

/-- The watermark with its delivery, one after the other. -/
def position (c : WatchdogCursor G) : WithBot Int ×ₗ WithBot G :=
  toLex (orNothing c.watermark, orNothing c.guid)

/-- There is a delivery only with a watermark. -/
def Dated (c : WatchdogCursor G) : Prop := c.watermark = none → c.guid = none

instance [DecidableEq G] (c : WatchdogCursor G) : Decidable c.Dated :=
  inferInstanceAs (Decidable (c.watermark = none → c.guid = none))

end WatchdogCursor

namespace WatchdogCursor

/-- Without a watermark there is nothing lower. -/
theorem position_le_of_none [LinearOrder G] {c : WatchdogCursor G} (hdated : c.Dated)
    (hnone : c.watermark = none) (d : WatchdogCursor G) : c.position ≤ d.position := by
  have hbot : c.position = toLex (⊥, ⊥) := by
    rw [position, hnone, hdated hnone]
    rfl
  rw [hbot, position, Prod.Lex.toLex_le_toLex]
  rcases eq_or_lt_of_le (bot_le (a := orNothing d.watermark)) with heq | hlt
  · exact .inr ⟨heq, bot_le⟩
  · exact .inl hlt

/-- The time decides first. -/
theorem position_le_of_lt [LinearOrder G] {c d : WatchdogCursor G} {t u : Int}
    (hc : c.watermark = some t) (hd : d.watermark = some u) (hlt : t < u) :
    c.position ≤ d.position := by
  rw [position, position, hc, hd, Prod.Lex.toLex_le_toLex]
  exact .inl (WithBot.coe_lt_coe.mpr hlt)

/-- Between equal times the delivery decides. -/
theorem position_le_of_guid [LinearOrder G] {c d : WatchdogCursor G}
    (hat : c.watermark = d.watermark) (hguid : orNothing c.guid ≤ orNothing d.guid) :
    c.position ≤ d.position := by
  rw [position, position, hat, Prod.Lex.toLex_le_toLex]
  exact .inr ⟨rfl, hguid⟩

end WatchdogCursor

theorem laterOf_eq_max (a b : Option Int) :
    orNothing (laterOf a b) = max (orNothing a) (orNothing b) := by
  cases a with
  | none => exact (max_eq_right bot_le).symm
  | some a =>
      cases b with
      | none => exact (max_eq_left bot_le).symm
      | some b => exact WithBot.coe_max a b

variable [LinearOrder G]

open WatchdogCursor

/-- A store moves the watermark and its delivery to the later of the two positions. -/
theorem store_position {new old : WatchdogCursor G} (hnew : new.Dated) (hold : old.Dated) :
    (new.store (some old)).position = max old.position new.position := by
  -- what is stored is one of the two, so it remains to say which is the later one
  have hkeep : (new.store (some old)).watermark = old.watermark →
      (new.store (some old)).guid = old.guid → new.position ≤ old.position →
        (new.store (some old)).position = max old.position new.position := by
    intro hat hguid hle
    rw [max_eq_left hle, position, position, hat, hguid]
  have htake : (new.store (some old)).watermark = new.watermark →
      (new.store (some old)).guid = new.guid → old.position ≤ new.position →
        (new.store (some old)).position = max old.position new.position := by
    intro hat hguid hle
    rw [max_eq_right hle, position, position, hat, hguid]
  cases hnewAt : new.watermark with
  | none =>
      refine hkeep ?_ ?_ (position_le_of_none hnew hnewAt old)
      · rw [WatchdogCursor.store, hnewAt]
        cases old.watermark with
        | none => rfl
        | some t => rfl
      · rw [WatchdogCursor.store, hnewAt]
  | some newAt =>
      cases holdAt : old.watermark with
      | none =>
          refine htake ?_ ?_ (position_le_of_none hold holdAt new)
          · simp only [WatchdogCursor.store, holdAt, laterOf]
          · simp only [WatchdogCursor.store, hnewAt, holdAt]
      | some oldAt =>
          rcases lt_trichotomy oldAt newAt with hlt | heq | hgt
          · refine htake ?_ ?_ (position_le_of_lt holdAt hnewAt hlt)
            · simp only [WatchdogCursor.store, hnewAt, holdAt, laterOf, max_eq_right hlt.le]
            · simp only [WatchdogCursor.store, hnewAt, holdAt, if_pos hlt]
          · subst heq
            have hsame : new.watermark = old.watermark := hnewAt.trans holdAt.symm
            have hmark : (new.store (some old)).watermark = some oldAt := by
              simp only [WatchdogCursor.store, hnewAt, holdAt, laterOf, max_self]
            cases hnewGuid : new.guid with
            | none =>
                refine hkeep (hmark.trans holdAt.symm) ?_ (position_le_of_guid hsame ?_)
                · simp only [WatchdogCursor.store, hnewAt, holdAt, hnewGuid, lt_irrefl, if_false]
                · rw [hnewGuid]
                  exact bot_le
            | some newGuid =>
                cases holdGuid : old.guid with
                | none =>
                    refine htake (hmark.trans hnewAt.symm) ?_ (position_le_of_guid hsame.symm ?_)
                    · simp only [WatchdogCursor.store, hnewAt, holdAt, hnewGuid, holdGuid,
                        lt_irrefl, if_false]
                    · rw [holdGuid]
                      exact bot_le
                | some oldGuid =>
                    by_cases hafter : oldGuid < newGuid
                    · refine htake (hmark.trans hnewAt.symm) ?_
                        (position_le_of_guid hsame.symm ?_)
                      · simp only [WatchdogCursor.store, hnewAt, holdAt, hnewGuid, holdGuid,
                          lt_irrefl, if_false, if_pos hafter]
                      · rw [holdGuid, hnewGuid]
                        exact WithBot.coe_le_coe.mpr hafter.le
                    · refine hkeep (hmark.trans holdAt.symm) ?_ (position_le_of_guid hsame ?_)
                      · simp only [WatchdogCursor.store, hnewAt, holdAt, hnewGuid, holdGuid,
                          lt_irrefl, if_false, if_neg hafter]
                      · rw [holdGuid, hnewGuid]
                        exact WithBot.coe_le_coe.mpr (not_lt.mp hafter)
          · refine hkeep ?_ ?_ (position_le_of_lt hnewAt holdAt hgt)
            · simp only [WatchdogCursor.store, hnewAt, holdAt, laterOf, max_eq_left hgt.le]
            · simp only [WatchdogCursor.store, hnewAt, holdAt, if_neg hgt.not_gt, if_pos hgt]

theorem store_dated (new : WatchdogCursor G) {old : WatchdogCursor G} (hold : old.Dated) :
    (new.store (some old)).Dated := by
  intro hnone
  cases hat : new.watermark with
  | none =>
      have hwatermark : old.watermark = none := by
        cases holdAt : old.watermark with
        | none => rfl
        | some t =>
            simp only [WatchdogCursor.store, hat, holdAt, laterOf] at hnone
            cases hnone
      simpa only [WatchdogCursor.store, hat] using hold hwatermark
  | some newAt =>
      rcases store_watermark hat (some old) with ⟨hkept, -⟩ | ⟨c, -, hkept, hsome, -⟩
      · rw [hnone] at hkept
        cases hkept
      · exact absurd (hkept.symm.trans hnone) hsome

/-- The row of a scope after a list of stores. -/
def cursorStored (row : Option (WatchdogCursor G)) (cursors : List (WatchdogCursor G)) :
    Option (WatchdogCursor G) := JoinStore.writeAll WatchdogCursor.store row cursors

theorem joins_position : JoinStore.Joins (WatchdogCursor.store (G := G)) Dated position :=
  ⟨fun _ => rfl, fun new _ _ hold => store_dated new hold,
    fun _ _ hnew hold => store_position hnew hold⟩

theorem joins_lastPollAt : JoinStore.Joins (WatchdogCursor.store (G := G)) Dated
    fun c => orNothing c.lastPollAt :=
  ⟨fun _ => rfl, fun new _ _ hold => store_dated new hold,
    fun new old _ _ => laterOf_eq_max old.lastPollAt new.lastPollAt⟩

theorem joins_lastSuccessAt : JoinStore.Joins (WatchdogCursor.store (G := G)) Dated
    fun c => orNothing c.lastSuccessAt :=
  ⟨fun _ => rfl, fun new _ _ hold => store_dated new hold,
    fun new old _ _ => laterOf_eq_max old.lastSuccessAt new.lastSuccessAt⟩

/-- What the stores of a row join. -/
structure SameMarks (c d : WatchdogCursor G) : Prop where
  watermark : c.watermark = d.watermark
  guid : c.guid = d.guid
  lastPollAt : c.lastPollAt = d.lastPollAt
  lastSuccessAt : c.lastSuccessAt = d.lastSuccessAt

omit [LinearOrder G] in
/-- The three keys decide the marks. -/
theorem sameMarks_of_keys {c d : WatchdogCursor G} (hposition : c.position = d.position)
    (hpoll : orNothing c.lastPollAt = orNothing d.lastPollAt)
    (hsuccess : orNothing c.lastSuccessAt = orNothing d.lastSuccessAt) : SameMarks c d := by
  have hpair := congrArg ofLex hposition
  exact ⟨congrArg Prod.fst hpair, congrArg Prod.snd hpair, hpoll, hsuccess⟩

/-- The row of a scope holds the maxima of all cursors that were stored into it, whatever
    their order and their repetition, and no further store takes them back. -/
theorem cursor_joins (row : Option (WatchdogCursor G)) (cursors : List (WatchdogCursor G))
    (hsome : row.toList ++ cursors ≠ []) (hdated : ∀ c ∈ row.toList ++ cursors, c.Dated) :
    ∃ final, cursorStored row cursors = some final ∧
      IsGreatest (position '' {c | c ∈ row.toList ++ cursors}) final.position ∧
      IsGreatest ((fun c => orNothing c.lastPollAt) '' {c | c ∈ row.toList ++ cursors})
        (orNothing final.lastPollAt) ∧
      IsGreatest ((fun c => orNothing c.lastSuccessAt) '' {c | c ∈ row.toList ++ cursors})
        (orNothing final.lastSuccessAt) ∧
      (∀ row' cursors', (∀ c, c ∈ row'.toList ++ cursors' ↔ c ∈ row.toList ++ cursors) →
        ∃ final', cursorStored row' cursors' = some final' ∧ SameMarks final' final) ∧
      ∀ c : WatchdogCursor G, c.Dated →
        final.position ≤ (c.store (some final)).position ∧
          orNothing final.lastPollAt ≤ orNothing (c.store (some final)).lastPollAt ∧
          orNothing final.lastSuccessAt ≤ orNothing (c.store (some final)).lastSuccessAt := by
  rcases JoinStore.exists_writeAll WatchdogCursor.store hsome with ⟨final, hfinal⟩
  -- a cursor of dated ones is dated
  have hvalid : final.Dated := (joins_position.le_iff hdated hfinal).1
  refine ⟨final, hfinal, joins_position.isGreatest hdated hfinal,
    joins_lastPollAt.isGreatest hdated hfinal, joins_lastSuccessAt.isGreatest hdated hfinal,
    fun row' cursors' hsame => ?_, fun c hc => ?_⟩
  -- the same cursors in another order: the row is there too, with the same maxima
  · have hsome' : row'.toList ++ cursors' ≠ [] := by
      rcases List.exists_mem_of_ne_nil _ hsome with ⟨c, hc⟩
      exact List.ne_nil_of_mem ((hsame c).mpr hc)
    rcases JoinStore.exists_writeAll WatchdogCursor.store hsome' with ⟨final', hfinal'⟩
    exact ⟨final', hfinal', sameMarks_of_keys
      (joins_position.key_congr hdated hsame hfinal hfinal')
      (joins_lastPollAt.key_congr hdated hsame hfinal hfinal')
      (joins_lastSuccessAt.key_congr hdated hsame hfinal hfinal')⟩
  · exact ⟨joins_position.le_write hc hvalid, joins_lastPollAt.le_write hc hvalid,
      joins_lastSuccessAt.le_write hc hvalid⟩

/-- Two watchdogs, one of which was left behind. -/
theorem cursor_joins_of_stale :
    let ahead : WatchdogCursor Nat := ⟨some 9, some 4, some 100, some 12, none⟩
    let behind : WatchdogCursor Nat := ⟨some 9, none, none, some 11, some 11⟩
    ∃ final, cursorStored none [ahead, behind] = some final ∧ SameMarks final
      ⟨some 9, some 4, none, some 12, some 11⟩ ∧
      ∃ final', cursorStored none [behind, ahead, behind] = some final' ∧
        SameMarks final' final := by
  intro ahead behind
  rcases cursor_joins none [ahead, behind] (by simp) (by decide) with
    ⟨final, hfinal, -, -, -, hsame, -⟩
  refine ⟨final, hfinal, ?_, hsame none [behind, ahead, behind] fun c => ?_⟩
  · rw [← Option.some.inj hfinal]
    exact ⟨rfl, rfl, rfl, rfl⟩
  · simp only [Option.toList_none, List.nil_append, List.mem_cons, List.not_mem_nil, or_false]
    constructor
    · rintro (h | h | h)
      · exact .inr h
      · exact .inl h
      · exact .inr h
    · rintro (h | h)
      · exact .inr (.inl h)
      · exact .inl h

end Preloop

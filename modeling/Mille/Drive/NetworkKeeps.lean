import Mille.Lib.Run
import Mille.Drive.NetworkRuns

/-! Changes on their way through the network: none is lost and none comes from nowhere. -/

namespace Mille.Drive.Network

open Std Mille.Bincode SyncState

variable {ι Doc V : Type} [DecidableEq ι] [LoroDoc Doc V] [VersionVector V] [SemilatticeSup V]
variable {setting : Participants ι} {net : Network ι Doc V} {event : Event ι Doc}

/-- Every drive keeps what it had and has no more than the drives had before and what was written. -/
theorem docs_step (lawful : LoroDoc.Lawful Doc V) (sound : net.Sound setting) (allowed : net.Allowed setting event)
    (other : ι) : oplogVv (net.node other).doc ≤ oplogVv ((net.step setting event).node other).doc ∧
      ∀ top, (∀ drive, oplogVv (net.node drive).doc ≤ top) →
        (∀ drive doc, event = .write drive doc → oplogVv doc ≤ top) →
        oplogVv ((net.step setting event).node other).doc ≤ top := by
  cases event with
  | write drive doc =>
    by_cases mine : other = drive
    · subst mine
      simp only [step, node_put_self]
      exact ⟨allowed, fun _ _ written => written other doc rfl⟩
    · simp only [step, ne_eq, mine, not_false_eq_true, node_put_ne]
      exact ⟨le_rfl, fun _ below _ => below other⟩
  | host drive store request =>
    have same : ((net.step setting (.host drive store request)).node other).doc = (net.node other).doc := by
      by_cases mine : other = drive
      · subst mine
        simp [step, call]
      · simp [step, call, mine]
    rw [same]
    exact ⟨le_rfl, fun _ below _ => below other⟩
  | deliver sender receiver store =>
    cases oldest : net.channel sender receiver with
    | nil =>
      simp only [step, oldest]
      exact ⟨le_rfl, fun _ below _ => below other⟩
    | cons frame rest =>
      obtain ⟨⟨actions, done⟩, _⟩ := allowed frame rest oldest
      have accepts := (handle_told done).1
      have same : ((net.step setting (.deliver sender receiver store)).node other).doc =
          ((net.arrived setting sender receiver frame).node other).doc := by
        by_cases mine : other = receiver
        · subst mine
          simp [step, oldest, call, arrived]
        · simp [step, oldest, call, arrived, mine, pop]
      rw [same]
      refine ⟨docs_arrived other lawful sound oldest accepts, fun top below _ => ?_⟩
      by_cases mine : other = receiver
      · subst mine
        obtain ⟨reach, arriving, _⟩ := sound.linked sender other
        rw [oldest] at arriving
        have took := arriving.take lawful (net.node other).sync (setting.name sender) (net.node other).doc
        simp only [arrived, node_put_self, receiving, docAfter, accepts, Option.bind_some]
        cases whole : ((net.node other).sync.completes (setting.options other) (setting.name sender) frame).2 with
        | none => exact below other
        | some bytes =>
          obtain ⟨after, news, imports, joined, less⟩ := took.merged bytes whole
          simp only [absorbed, imports, joined]
          exact sup_le (below other) (less.trans (below sender))
      · simp only [arrived, ne_eq, mine, not_false_eq_true, node_put_ne]
        exact below other

end Mille.Drive.Network

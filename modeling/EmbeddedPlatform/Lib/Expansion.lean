import EmbeddedPlatform.Lib.Run

/-! # Logs at two levels

An event of a log may stand for several events of a plant further down. What the
plant above shows at every point of the log, the plant below shows at every point
of its own. -/
namespace EmbeddedPlatform.Lib

variable {π ρ β γ : Type*}

theorem Along.imp {act : π → β → π} {I K : π → Prop} (hIK : ∀ p, I p → K p) {p : π} {es : List β}
    (h : Along act I p es) : Along act K p es := by
  induction es generalizing p with
  | nil => exact hIK p h
  | cons e es ih => exact ⟨hIK p h.1, ih h.2⟩

/-- Each event is carried out by a few events below: on the way the plant below
matches the plant above as it was or as it is to be, and at the end the latter. -/
structure Expands (act : π → β → π) (below : ρ → γ → ρ) (expand : β → List γ)
    (Matches : ρ → π → Prop) : Prop where
  between : ∀ r p e, Matches r p →
    Along below (fun r => Matches r p ∨ Matches r (act p e)) r (expand e)
  done : ∀ r p e, Matches r p → Matches (replay below r (expand e)) (act p e)

variable {act : π → β → π} {below : ρ → γ → ρ} {expand : β → List γ} {Matches : ρ → π → Prop}

theorem Expands.along (h : Expands act below expand Matches) {I : π → Prop} {p : π} {r : ρ}
    {es : List β} (hr : Matches r p) (hes : Along act I p es) :
    Matches (replay below r (es.flatMap expand)) (replay act p es) ∧
      Along below (fun r => ∃ p, Matches r p ∧ I p) r (es.flatMap expand) := by
  induction es generalizing p r with
  | nil => exact ⟨hr, p, hr, hes⟩
  | cons e es ih =>
    obtain ⟨hend, hrest⟩ := ih (h.done r p e hr) hes.2
    rw [List.flatMap_cons, replay_append]
    refine ⟨hend, along_append.mpr ⟨(h.between r p e hr).imp ?_, hrest⟩⟩
    rintro r (hp | hp)
    · exact ⟨p, hp, hes.1⟩
    · exact ⟨act p e, hp, hes.2.head⟩

/-- What every event keeps holds all along, and at the end. -/
theorem along_of_kept {act : π → β → π} {J : π → Prop} {es : List β}
    (h : ∀ e ∈ es, ∀ p, J p → J (act p e)) {p : π} (hp : J p) :
    J (replay act p es) ∧ Along act J p es := by
  induction es generalizing p with
  | nil => exact ⟨hp, hp⟩
  | cons e es ih =>
    obtain ⟨he, hes⟩ := List.forall_mem_cons.mp h
    obtain ⟨hend, hall⟩ := ih hes (he p hp)
    exact ⟨hend, hp, hall⟩

/-- Events that are never refused comply. -/
theorem complies_of_forall {act : π → β → π} {ok : π → β → Prop} {es : List β}
    (h : ∀ e ∈ es, ∀ p, ok p e) (p : π) : Complies act ok p es := by
  induction es generalizing p with
  | nil => trivial
  | cons e es ih =>
    obtain ⟨he, hes⟩ := List.forall_mem_cons.mp h
    exact ⟨he p, ih hes _⟩

end EmbeddedPlatform.Lib

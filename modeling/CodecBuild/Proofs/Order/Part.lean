import CodecBuild.Proofs.Order.Least

/-!
Ordering a part of the targets. If whatever its targets depend on is in the part as well, the part
is ordered on its own as it is ordered within the whole: the other targets come in between, and
never decide which target of the part is next.
-/

namespace CodecBuild.Order

variable {targets part out : List Target}

/-- A part that knows all its dependencies holds the targets that these mean in the whole. -/
theorem Known.needs (hknown : Known part) (hn : (targets.map Target.name).Nodup)
    (hsubset : part ⊆ targets) {t u : Target} (ht : t ∈ part) (h : Needs targets t u) :
    Needs part t u := by
  obtain ⟨w, hw, hname⟩ := hknown t ht u.name h.2
  have heq : w = u := List.inj_on_of_nodup_map hn (hsubset hw) h.1 hname
  exact ⟨heq ▸ hw, h.2⟩

theorem ByName.filter (hn : (targets.map Target.name).Nodup) (h : ByName targets out)
    (hpart : part.Nodup) (hsubset : part ⊆ targets) (hknown : Known part) :
    ByName part (out.filter (· ∈ part)) where
  perm := by
    have hout : out.Nodup := h.perm.nodup_iff.mpr hn.of_map
    rw [List.perm_ext_iff_of_nodup (hout.filter _) hpart]
    intro t
    simpa [h.perm.mem_iff] using @hsubset t
  follows := h.follows.filter fun t u hu => ⟨⟨hsubset hu.1, hu.2⟩, by simpa using hu.1⟩
  greedy := h.greedy.filter (fun t ht => ⟨hsubset ht, by simpa using ht⟩)
    fun t ht u hu => hknown.needs hn hsubset ht hu

/-- A part that knows all its dependencies can be ordered if the whole can, and its order is that
of the whole without the other targets. -/
theorem order_of_part (hn : (targets.map Target.name).Nodup) (hout : order targets = .ok out)
    (hpart : part.Sublist targets) (hknown : Known part) :
    order part = .ok (out.filter (· ∈ part)) := by
  have hnames : (part.map Target.name).Nodup := (hpart.map Target.name).nodup hn
  obtain ⟨-, hbyName⟩ := (order_eq_ok_iff_byName hn).mp hout
  exact (order_eq_ok_iff_byName hnames).mpr
    ⟨hknown, hbyName.filter hn hnames.of_map hpart.subset hknown⟩

/-- Of the targets that are left out one comes first, one is needed by none and stands in between,
and one depends on the part. -/
theorem viewer_ordered_within_suite :
    let targets : List Target := [.executable "viewer" "codec", .executable "suite" "viewer",
      .library "archive", .library "codec", .executable "encoder" "codec", .library "math"]
    let part : List Target :=
      [.executable "viewer" "codec", .library "codec", .library "math"]
    let out : List Target := [.library "archive", .library "codec", .executable "encoder" "codec",
      .library "math", .executable "viewer" "codec", .executable "suite" "viewer"]
    (targets.map Target.name).Nodup ∧ order targets = .ok out ∧ part.Sublist targets ∧
      Known part ∧
      order part = .ok [.library "codec", .library "math", .executable "viewer" "codec"] := by
  intro targets part out
  have hn : (targets.map Target.name).Nodup := by decide
  have hout : order targets = .ok out := by decide
  have hpart : part.Sublist targets := by decide
  have hknown : Known part := by
    unfold Known
    decide
  exact ⟨hn, hout, hpart, hknown, order_of_part hn hout hpart hknown⟩

end CodecBuild.Order

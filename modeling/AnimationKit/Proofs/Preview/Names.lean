import AnimationKit.Preview.Binder
import AnimationKit.Proofs.Page.Appearance

/-! The names that previews write: they keep apart from those of the page, and from each other. -/
namespace AnimationKit.Preview

/-- Classes `mf-…`, properties `--mf-…`, and the play state. -/
def names : Names :=
  ⟨fun token => "mf-".toList.isPrefixOf token.toList,
    fun name => "--mf-".toList.isPrefixOf name.toList || name == playStateName⟩

theorem ofClass_slideToken (axis : Axis) (direction : Direction) :
    names.ofClass (slideToken axis direction) = true := by
  cases axis <;> cases direction <;> decide

theorem ofClass_familyToken (config : Config) (family : Family) :
    names.ofClass (familyToken config family) = true := by
  cases family with
  | slide => exact ofClass_slideToken _ _
  | fade => exact (by decide : names.ofClass "mf-fade" = true)
  | scale => exact (by decide : names.ofClass "mf-scale" = true)
  | rotate => exact (by decide : names.ofClass "mf-rotate" = true)
  | bounce => exact (by decide : names.ofClass "mf-bounce" = true)

theorem ofClass_token {config : Config} {token : String} (h : token? config = some token) :
    names.ofClass token = true := by
  unfold token? at h
  split at h
  · rw [← Option.some.inj h]
    exact ofClass_familyToken config _
  · simp at h

theorem ofStyle_propertyName (family parameter : String) :
    names.ofStyle (propertyName family parameter) = true := by
  simp [names, propertyName, String.toList_append]

theorem ofStyle_playStateName : names.ofStyle playStateName = true := by
  simp [names]

/-- The parameters of each family that may be written. -/
def parameterNames : Family → List String
  | .fade => ["opacity-start", "opacity-end"]
  | .slide | .bounce => ["distance"]
  | .scale => ["start"]
  | .rotate => ["start", "end"]

/-- The names of everything that may be written for a family, in their order. -/
def propertyNames (family : Family) : List String :=
  Family.all.flatMap (fun f => ["duration", "delay", "easing"].map (propertyName f.name)) ++
    (parameterNames family).map (propertyName family.name)

theorem nodup_propertyNames (family : Family) :
    (propertyNames family ++ [playStateName]).Nodup := by
  cases family <;> decide

theorem familyProperties_sublist (config : Config) (family : Family) :
    ((familyProperties config family).map (·.1)).Sublist
      ((parameterNames family).map (propertyName family.name)) := by
  cases family with
  | fade => cases h : config.opacity <;> simp [familyProperties, parameterNames, h, Family.name]
  | slide =>
    cases h : config.distance <;>
      simp [familyProperties, familyProperties.distanceProperty, parameterNames, h]
  | scale => cases h : config.scale <;> simp [familyProperties, parameterNames, h, Family.name]
  | rotate => cases h : config.degrees <;> simp [familyProperties, parameterNames, h, Family.name]
  | bounce =>
    cases h : config.distance <;>
      simp [familyProperties, familyProperties.distanceProperty, parameterNames, h]

theorem properties_sublist {config : Config} {family : Family} (h : config.kind = .family family) :
    ((properties config).map (·.1)).Sublist (propertyNames family) := by
  have htiming : (Family.all.flatMap (timingProperties config)).map (·.1) =
      Family.all.flatMap (fun f => ["duration", "delay", "easing"].map (propertyName f.name)) := by
    simp [List.map_flatMap, timingProperties]
  simp only [properties, h, List.map_append, htiming, propertyNames]
  exact (List.Sublist.refl _).append (familyProperties_sublist config family)

/-- No property is written twice for a supported kind, the play state included. -/
theorem nodup_properties {config : Config} {family : Family} (h : config.kind = .family family) :
    ((properties config).map (·.1) ++ [playStateName]).Nodup :=
  (nodup_propertyNames family).sublist ((properties_sublist h).append (List.Sublist.refl _))

theorem ofStyle_properties {config : Config} {entry : String × String}
    (h : entry ∈ properties config) : names.ofStyle entry.1 = true := by
  rcases List.mem_append.mp h with h | h
  · obtain ⟨family, -, h⟩ := List.mem_flatMap.mp h
    simp only [timingProperties, List.mem_cons, List.not_mem_nil, or_false] at h
    rcases h with h | h | h <;> (rw [h]; exact ofStyle_propertyName _ _)
  · split at h
    · rename_i family _
      have hm := (familyProperties_sublist config family).subset (List.mem_map_of_mem h)
      obtain ⟨parameter, -, hp⟩ := List.mem_map.mp hm
      rw [← hp]
      exact ofStyle_propertyName _ _
    · exact (List.not_mem_nil h).elim

end AnimationKit.Preview

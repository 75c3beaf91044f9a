import PetlibroLocal.Render.Registry

/-!
# Names of Streams

The name of a stream is stored in the registry and made anew from the stored one whenever the
configuration is rendered. go2rtc writes the status of the camera to a file with the new name, and
the discovery app reads the file with the stored one. The two agree exactly if the stored name does
not end with an underscore; a name that was cut at 96 characters may, and so may one of a serial
without letters and digits.
-/

namespace PetlibroLocal.Render

open Discovery List

variable {py : ConfigPython}

/-! ### The form of the names -/

/-- What is known of a name. -/
structure IsStreamName (name : List Char) : Prop where
  nonempty : name ≠ []
  word : ∀ c ∈ name, isWordChar c = true
  length : name.length ≤ 96
  head : name.head? ≠ some '_'

variable {c : Char} {key product serial k : String} {device : Entry} {options : Options}

theorem isAlphanum_toLower (h : c.isAlphanum = true) : c.toLower.isAlphanum = true := by
  have hlt : c.toNat < 128 := by
    delta Char.isAlphanum Char.isAlpha Char.isUpper Char.isLower Char.isDigit at h
    simp only [Bool.or_eq_true, Bool.and_eq_true, decide_eq_true_eq] at h
    have hval : c.toNat = c.val.toNat := rfl
    rcases h with ((h | h) | h) <;>
    · have := h.2
      rw [hval]
      have hle := UInt32.le_iff_toNat_le.mp this
      exact Nat.lt_of_le_of_lt hle (by decide)
  have hall : ∀ n < 128, (Char.ofNat n).isAlphanum = true →
      (Char.ofNat n).toLower.isAlphanum = true := by decide
  have hc := hall c.toNat hlt
  rw [Char.ofNat_toNat] at hc
  exact hc h

theorem isWordChar_underscore : isWordChar '_' = true := by decide

theorem isWordChar_of_mem_namePart {text : String} (h : c ∈ namePart text) :
    isWordChar c = true := by
  obtain ⟨d, hd, rfl⟩ := mem_map.mp h
  rcases mem_subRuns (strip_sublist.subset hd) with rfl | ⟨-, hd⟩
  · decide
  · rw [isWordChar, isAlphanum_toLower hd, Bool.true_or, Bool.true_or]

/-- **The form of a name**, whatever it is made of. -/
theorem isStreamName_streamNameFor (product serial preferred : String) :
    IsStreamName (streamNameFor product serial preferred).toList := by
  rw [streamNameFor]
  split
  · next hcandidate =>
      rw [String.toList_ofList]
      refine ⟨?_, fun c hc => ?_, length_take_le _ _, ?_⟩
      · exact fun hnil => hcandidate (by simpa using take_eq_nil_iff.mp hnil)
      · rcases mem_subRuns (strip_sublist.subset (mem_of_mem_take hc)) with rfl | ⟨-, hc⟩
        · exact isWordChar_underscore
        · exact hc
      · rw [List.head?_take]
        exact head?_strip
  · rw [Discovery.streamNameFor, String.toList_ofList]
    have hword : "petlibro_".toList.all isWordChar = true := by decide
    refine ⟨?_, fun c hc => ?_, length_take_le _ _, ?_⟩
    · simp
    · rcases mem_append.mp (mem_of_mem_take hc) with hc | hc
      · rcases mem_append.mp hc with hc | hc
        · exact all_eq_true.mp hword c hc
        · exact isWordChar_of_mem_namePart hc
      · rcases mem_cons.mp hc with rfl | hc
        · exact isWordChar_underscore
        · exact isWordChar_of_mem_namePart hc
    · simp

theorem candidateName_ofList {name : List Char} (h : ∀ c ∈ name, isWordChar c = true) :
    candidateName (String.ofList name) = strip '_' name := by
  rw [candidateName, String.toList_ofList, subRuns_eq_self h]

/-- **The names that stay as they are** are those that do not end with an underscore. -/
theorem streamNameFor_eq_self_iff {name : String} (h : IsStreamName name.toList)
    (product serial : String) :
    streamNameFor product serial name = name ↔ name.toList.getLast? ≠ some '_' := by
  have hcandidate : candidateName name = strip '_' name.toList := by
    rw [← candidateName_ofList h.word, String.ofList_toList]
  constructor
  · intro heq
    rw [streamNameFor] at heq
    split at heq
    · rw [hcandidate, take_of_length_le (strip_sublist.length_le.trans h.length)] at heq
      rw [← heq, String.toList_ofList]
      exact getLast?_strip
    · next hnil =>
        rw [hcandidate, ne_eq, not_not] at hnil
        have hhead := List.head?_eq_some_head h.nonempty
        exact absurd (hhead.trans (congrArg some (eq_of_strip_eq_nil hnil _ (head_mem _))))
          h.head
  · intro hlast
    have hself : candidateName name = name.toList := hcandidate.trans (strip_eq_self h.head hlast)
    rw [streamNameFor, hself, if_pos h.nonempty, take_of_length_le h.length, String.ofList_toList]

/-! ### Runs -/

/-- What happens to the registry: a topic is observed, the app stores what it learns of a device,
and options are put in. -/
inductive Op
  | observe (topic : Json) (now : ℤ)
  | setUid (key uid : String)
  | resolutionSucceeded (key ipAddress : String) (now : ℤ)
  | resolutionFailed (key : String) (now : ℤ)
  | setCameraOnline (key : String) (online : Bool)
  | prepare (options : Options)

/-- An entry that is there changes. -/
def change? (devices : List (String × Entry)) (key : String) (f : Entry → Option Entry) :
    Option (List (String × Entry)) :=
  (devices.lookup key).bind fun device => (f device).map (Dict.setItem devices key)

variable (py) in
/-- One operation, if it can happen: the topic is accepted, the entry is there, the options are
valid. -/
def step? (devices : List (String × Entry)) : Op → Option (List (String × Entry))
  | .observe topic now =>
    (parseDeviceTopic topic "PLAF203").map fun (product, serial, topicRoot) =>
      (observe py.toPython devices product serial topicRoot now).2.1
  | .setUid key uid =>
    change? devices key fun device => some (setUid device uid "DEVICE_START_EVENT.uuid").2
  | .resolutionSucceeded key ipAddress now => change? devices key fun device =>
    (resolutionSucceeded py.toPython device ipAddress now).map Prod.snd
  | .resolutionFailed key now =>
    change? devices key fun device => some (resolutionFailed py.toPython device now)
  | .setCameraOnline key online =>
    change? devices key fun device => some (setCameraOnline device online).2
  | .prepare options =>
    match validate py options with
    | .error _ => none
    | .ok options => some (prepareRegistry py options devices)

variable (py) in
/-- A sequence of operations. -/
def run? : List Op → List (String × Entry) → Option (List (String × Entry))
  | [], devices => some devices
  | op :: ops, devices => (step? py devices op).bind (run? ops)

/-! ### The names in the registry -/

/-- What a device is named after: its product, its serial and the name that the user prefers. -/
abbrev Given := String × String × String

variable (py) in
/-- The devices that an operation names. -/
def Op.given : Op → List Given
  | .observe topic _ =>
    (parseDeviceTopic topic "PLAF203").toList.map fun (product, serial, _) =>
      (product, serial, "")
  | .prepare options =>
    match validate py options with
    | .error _ => []
    | .ok options => (manualDevices py options).map fun manual =>
      (productText py options manual, serialText py manual, fieldText py manual "name" "")
  | _ => []

/-- An entry that is named after one of the given devices. -/
def Named (given : List Given) (m : String × Entry) : Prop :=
  ∃ product serial preferred, (product, serial, preferred) ∈ given ∧
    m.1 = registryKey product serial ∧ Json.get m.2 "product" = .str product ∧
    Json.get m.2 "serial" = .str serial ∧
    Json.get m.2 "stream_name" = .str (streamNameFor product serial preferred)

variable {given : List Given} {devices devices' : List (String × Entry)}

/-- The fields that name an entry. -/
def namingFields : List String := ["product", "serial", "stream_name"]

theorem Named.congr {device' : Entry} (h : Named given (key, device))
    (hsame : ∀ k ∈ namingFields, Json.get device' k = Json.get device k) :
    Named given (key, device') := by
  obtain ⟨product, serial, preferred, hmem, hkey, hproduct, hserial, hname⟩ := h
  refine ⟨product, serial, preferred, hmem, hkey, ?_, ?_, ?_⟩
  · exact (hsame _ (by simp [namingFields])).trans hproduct
  · exact (hsame _ (by simp [namingFields])).trans hserial
  · exact (hsame _ (by simp [namingFields])).trans hname

theorem named_setItem (h : ∀ m ∈ devices, Named given m) (hdevice : Named given (key, device)) :
    ∀ m ∈ Dict.setItem devices key device, Named given m := by
  intro m hm
  rcases Dict.mem_setItem hm with rfl | hm
  · exact hdevice
  · exact h m hm

theorem named_change {f : Entry → Option Entry} (h : ∀ m ∈ devices, Named given m)
    (hf : ∀ device device', f device = some device' → ∀ k ∈ namingFields,
      Json.get device' k = Json.get device k)
    (hchange : change? devices key f = some devices') : ∀ m ∈ devices', Named given m := by
  obtain ⟨device, hlookup, hmap⟩ := Option.bind_eq_some_iff.mp hchange
  obtain ⟨device', hdevice', rfl⟩ := Option.map_eq_some_iff.mp hmap
  exact named_setItem h ((h _ (Dict.mem_of_lookup hlookup)).congr (hf _ _ hdevice'))

/-! ### Keys -/

theorem slash_notMem_of_isWord {s : List Char} (h : isWord s = true) : '/' ∉ s := by
  intro hmem
  rw [isWord, Bool.and_eq_true] at h
  exact absurd (all_eq_true.mp h.2 _ hmem) (by decide)

theorem toList_registryKey (product serial : String) :
    (registryKey product serial).toList = product.toList ++ '/' :: serial.toList := by
  simp [registryKey, toString]

theorem registryKey_injective {product' serial' : String} (hproduct : '/' ∉ product.toList)
    (hserial : '/' ∉ serial.toList)
    (h : registryKey product' serial' = registryKey product serial) :
    product' = product ∧ serial' = serial := by
  have hchars := congrArg String.toList h
  rw [toList_registryKey, toList_registryKey] at hchars
  have hsplit : (product'.toList ++ '/' :: serial'.toList).splitOn '/' =
      [product.toList, serial.toList] := by
    rw [hchars, splitOn_append_cons hproduct, splitOn_of_notMem hserial]
  have hjoin {l l' : List Char} (hl : l.splitOn '/' = [l']) : l = l' := by
    have hl' : ['/'].intercalate (l.splitOn '/') = l := intercalate_splitOn '/'
    rw [← hl', hl, intercalate_singleton]
  by_cases hslash : '/' ∈ product'.toList
  · obtain ⟨front, rear, hfront, hnotMem⟩ := eq_append_cons_of_mem hslash
    rw [hfront, append_assoc, cons_append, splitOn_append_cons hnotMem, List.cons.injEq] at hsplit
    refine absurd ?_ hserial
    rw [← hjoin hsplit.2]
    exact mem_append_right _ mem_cons_self
  · rw [splitOn_append_cons hslash, List.cons.injEq] at hsplit
    exact ⟨String.toList_inj.mp hsplit.1, String.toList_inj.mp (hjoin hsplit.2)⟩

/-! ### Each operation keeps the names -/

theorem get_filter {p : String → Bool} (hk : p k = true) :
    Json.get (device.filter fun m => p m.1) k = Json.get device k := by
  rw [Json.get, Dict.lookup_filter hk, Json.get]

theorem get_sanitizeRegistryDevice (device : Entry) (hk : k ∈ namingFields) :
    Json.get (sanitizeRegistryDevice device) k = Json.get device k := by
  have hallowed : (namingFields.all fun k => allowedFields.contains k && k != "ready") = true := by
    decide
  have hfield := all_eq_true.mp hallowed k hk
  rw [Bool.and_eq_true, bne_iff_ne] at hfield
  rw [sanitizeRegistryDevice, get_setItem_of_ne hfield.2,
    get_filter (p := allowedFields.contains) hfield.1]

theorem named_loadRegistry (h : ∀ m ∈ devices, Named given m) :
    ∀ m ∈ loadRegistry devices, Named given m := by
  intro m hm
  obtain ⟨⟨key, device⟩, hmem, rfl⟩ := mem_map.mp hm
  exact (h _ hmem).congr fun k hk => get_sanitizeRegistryDevice device hk

theorem get_setOverride {source value : String} (hkey : k ≠ key) (hsource : k ≠ source) :
    Json.get (setOverride device key source value) k = Json.get device k := by
  rw [setOverride]
  split
  · rfl
  · rw [get_setItem_of_ne hsource, get_setItem_of_ne hkey]

theorem get_manualEntry (options : Options) (manual current : Entry) (hk : k ∈ namingFields) :
    Json.get (manualEntry py options manual current) k =
      Json.get (Dict.update current (manualFields py options manual)) k := by
  have hall : (namingFields.all fun k => k != "manual_override" && k != "ready" &&
      k != "ip_address" && k != "ip_resolution_method" && k != "uid" && k != "uid_source") =
      true := by decide
  have hne := all_eq_true.mp hall k hk
  simp only [Bool.and_eq_true, bne_iff_ne] at hne
  obtain ⟨⟨⟨⟨⟨hmanual, hready⟩, hip⟩, hmethod⟩, huid⟩, hsource⟩ := hne
  rw [manualEntry, get_setItem_of_ne hmanual, get_setItem_of_ne hready,
    get_setOverride hip hmethod, get_setOverride huid hsource]

theorem named_manualEntry {manual : Entry}
    (hgiven : (productText py options manual, serialText py manual,
      fieldText py manual "name" "") ∈ given)
    (current : Entry) :
    Named given (manualKey py options manual, manualEntry py options manual current) := by
  refine ⟨_, _, _, hgiven, rfl, ?_, ?_, ?_⟩
  · rw [get_manualEntry _ _ _ (by simp [namingFields])]
    simp [Dict.update, manualFields, Json.get, Dict.lookup_setItem]
  · rw [get_manualEntry _ _ _ (by simp [namingFields])]
    simp [Dict.update, manualFields, Json.get, Dict.lookup_setItem]
  · rw [get_manualEntry _ _ _ (by simp [namingFields])]
    simp [Dict.update, manualFields, Json.get, Dict.lookup_setItem, manualName]

theorem named_putManuals {manuals : List Entry}
    (hgiven : ∀ manual ∈ manuals, (productText py options manual, serialText py manual,
      fieldText py manual "name" "") ∈ given)
    (h : ∀ m ∈ devices, Named given m) :
    ∀ m ∈ manuals.foldl (putManual py options) devices, Named given m := by
  induction manuals generalizing devices with
  | nil => exact h
  | cons manual manuals ih =>
    rw [forall_mem_cons] at hgiven
    exact ih hgiven.2 (named_setItem h (named_manualEntry hgiven.1 _))

theorem named_prepareRegistry (h : ∀ m ∈ devices, Named given m)
    (hgiven : ∀ manual ∈ manualDevices py options, (productText py options manual,
      serialText py manual, fieldText py manual "name" "") ∈ given) :
    ∀ m ∈ prepareRegistry py options devices, Named given m := by
  rw [prepareRegistry]
  refine named_putManuals hgiven fun m hm => ?_
  obtain ⟨m', hm', rfl⟩ := mem_map.mp hm
  have hnamed := named_loadRegistry h m' hm'
  split
  · exact hnamed
  · refine hnamed.congr fun k hk => ?_
    have hall : (namingFields.all (· != "manual_override")) = true := by decide
    rw [Json.get, Dict.lookup_pop_of_ne (bne_iff_ne.mp (all_eq_true.mp hall k hk)), Json.get]

theorem streamNameFor_empty (product serial : String) :
    streamNameFor product serial "" = Discovery.streamNameFor product serial := by
  rw [streamNameFor, if_neg]
  decide

theorem storedName_of_named (hproduct : '/' ∉ product.toList) (hserial : '/' ∉ serial.toList)
    (h : Named given (registryKey product serial, device)) :
    ∃ preferred, (product, serial, preferred) ∈ given ∧
      storedName py.toPython device product serial = streamNameFor product serial preferred := by
  obtain ⟨product', serial', preferred, hmem, hkey, -, -, hname⟩ := h
  obtain ⟨rfl, rfl⟩ := registryKey_injective hproduct hserial hkey.symm
  refine ⟨preferred, hmem, ?_⟩
  have hne : streamNameFor product' serial' preferred ≠ "" := fun heq =>
    (isStreamName_streamNameFor product' serial' preferred).nonempty (by rw [heq]; rfl)
  rw [storedName, hname, if_pos (by simpa [Json.truthy] using hne), py.str_str]

theorem named_observe {topicRoot : String} {now : ℤ} (h : ∀ m ∈ devices, Named given m)
    (hproduct : '/' ∉ product.toList) (hserial : '/' ∉ serial.toList)
    (hgiven : (product, serial, "") ∈ given) :
    ∀ m ∈ (observe py.toPython devices product serial topicRoot now).2.1, Named given m := by
  refine named_setItem h ?_
  obtain ⟨preferred, hmem, hname⟩ : ∃ preferred, (product, serial, preferred) ∈ given ∧
      storedName py.toPython ((devices.lookup (registryKey product serial)).getD []) product
        serial = streamNameFor product serial preferred := by
    cases hlookup : devices.lookup (registryKey product serial) with
    | none => exact ⟨"", hgiven, (streamNameFor_empty product serial).symm⟩
    | some device =>
      exact storedName_of_named hproduct hserial (h _ (Dict.mem_of_lookup hlookup))
  refine ⟨product, serial, preferred, hmem, rfl, ?_, ?_, ?_⟩
  · rw [get_setItem_of_ne (by decide)]
    simp [Dict.update, Json.get, Dict.lookup_setItem]
  · rw [get_setItem_of_ne (by decide)]
    simp [Dict.update, Json.get, Dict.lookup_setItem]
  · rw [get_setItem_of_ne (by decide), ← hname]
    simp [Dict.update, Json.get, registryKey]

theorem get_setReady {v : Json} (hk : k ∈ namingFields) :
    Json.get (Dict.setItem device "ready" v) k = Json.get device k := by
  refine get_setItem_of_ne ?_
  rintro rfl
  simp [namingFields] at hk

theorem named_step {op : Op} (h : ∀ m ∈ devices, Named given m) (hgiven : op.given py ⊆ given)
    (hstep : step? py devices op = some devices') : ∀ m ∈ devices', Named given m := by
  cases op with
  | observe topic now =>
    obtain ⟨⟨product, serial, topicRoot⟩, hparse, rfl⟩ := Option.map_eq_some_iff.mp hstep
    obtain ⟨hproduct, hserial, -⟩ := of_parseDeviceTopic hparse
    refine named_observe h (slash_notMem_of_isWord hproduct) (slash_notMem_of_isWord hserial)
      (hgiven ?_)
    simp [Op.given, hparse]
  | setUid key uid =>
    refine named_change h (fun device device' hf k hk => ?_) hstep
    cases hf
    have hne : k ≠ "uid" ∧ k ≠ "uid_source" := by
      constructor <;> rintro rfl <;> simp [namingFields] at hk
    exact (get_setReady hk).trans
      ((get_setItem_of_ne hne.2).trans (get_setItem_of_ne hne.1))
  | resolutionSucceeded key ipAddress now =>
    refine named_change h (fun device device' hf k hk => ?_) hstep
    obtain ⟨⟨changed, device₁⟩, hsucceeded, rfl⟩ := Option.map_eq_some_iff.mp hf
    rw [resolutionSucceeded] at hsucceeded
    split at hsucceeded
    · cases hsucceeded
    simp only [Option.some.injEq, Prod.mk.injEq] at hsucceeded
    obtain ⟨-, rfl⟩ := hsucceeded
    refine (get_setReady hk).trans (get_update_of_notMem ?_)
    rintro hmem
    simp only [map_cons, map_nil, mem_cons, not_mem_nil, or_false] at hmem
    rcases hmem with rfl | rfl | rfl | rfl <;> simp [namingFields] at hk
  | resolutionFailed key now =>
    refine named_change h (fun device device' hf k hk => ?_) hstep
    cases hf
    refine (get_setReady hk).trans (get_setItem_of_ne ?_)
    rintro rfl
    simp [namingFields] at hk
  | setCameraOnline key online =>
    refine named_change h (fun device device' hf k hk => ?_) hstep
    cases hf
    exact get_setReady hk
  | prepare options =>
    simp only [step?] at hstep
    split at hstep
    · cases hstep
    next options' hvalid =>
      cases hstep
      refine named_prepareRegistry h fun manual hmanual => hgiven ?_
      simp only [Op.given, hvalid]
      exact mem_map_of_mem hmanual

/-- **Each entry is named after a device that was observed or given by hand.** -/
theorem named_run {ops : List Op} (h : ∀ m ∈ devices, Named given m)
    (hgiven : ops.flatMap (Op.given py) ⊆ given) (hrun : run? py ops devices = some devices') :
    ∀ m ∈ devices', Named given m := by
  induction ops generalizing devices with
  | nil =>
    cases hrun
    exact h
  | cons op ops ih =>
    obtain ⟨devices₁, hstep, hrest⟩ := Option.bind_eq_some_iff.mp hrun
    rw [flatMap_cons, append_subset] at hgiven
    exact ih (named_step h hgiven.1 hstep) hgiven.2 hrest

end PetlibroLocal.Render

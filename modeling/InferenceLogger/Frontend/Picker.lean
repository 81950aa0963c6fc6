import InferenceLogger.Providers.Catalogue
import InferenceLogger.Services.Conversations
import Mathlib.Data.List.Forall2

/-! # The model picker

Its options are built from `GET /providers`, and an option names a provider and a model. None
that it offers is refused, whatever the settings; what is refused is told exactly.
-/
namespace InferenceLogger
open PyText PyJson AsyncTask

variable {B : Signature}

/-! ## The registry of some settings -/

theorem lookup_keyed {K α : Type} [BEq K] [LawfulBEq K] {f : α → K} {l : List α} (hn : (l.map f).Nodup) {k : K} {a : α} :
    (l.map fun p => (f p,p)).lookup k = some a ↔ a ∈ l ∧ f a = k := by
  induction l with
  | nil => simp
  | cons p l ih =>
    obtain ⟨hp,hl⟩ := List.nodup_cons.mp hn
    rw [List.map_cons, List.lookup_cons]
    by_cases hk : k = f p
    · subst hk
      simp only [beq_self_eq_true, Option.some.injEq, List.mem_cons]
      constructor
      · rintro rfl
        exact ⟨.inl rfl,rfl⟩
      · rintro ⟨rfl | ha,hf⟩
        · rfl
        · exact absurd (hf ▸ List.mem_map_of_mem ha) hp
    · rw [beq_false_of_ne hk]
      dsimp only
      rw [ih hl]
      constructor
      · rintro ⟨ha,hf⟩
        exact ⟨List.mem_cons_of_mem _ ha,hf⟩
      · rintro ⟨ha,hf⟩
        rcases List.mem_cons.mp ha with rfl | ha
        · exact absurd hf.symm hk
        · exact ⟨ha,hf⟩

theorem mapM_forall₂ {ε α β : Type} {f : α → Except ε β} {l : List α} (h : ∀ a ∈ l, ∃ b, f a = .ok b) :
    ∃ bs, l.mapM f = .ok bs ∧ List.Forall₂ (fun a b => f a = .ok b) l bs := by
  induction l with
  | nil => exact ⟨[],rfl,.nil⟩
  | cons a l ih =>
    obtain ⟨b,hb⟩ := h a List.mem_cons_self
    obtain ⟨bs,hbs,hall⟩ := ih fun x hx => h x (List.mem_cons_of_mem _ hx)
    refine ⟨b :: bs,?_,.cons hb hall⟩
    rw [List.mapM_cons, hb]
    change (l.mapM f >>= _) = _
    rw [hbs]
    rfl

theorem forall₂_right {α β : Type} {R : α → β → Prop} {l : List α} {u : List β} (h : List.Forall₂ R l u) :
    ∀ b ∈ u, ∃ a, R a b := by
  induction h with
  | nil => exact fun b hb => by cases hb
  | cons hab _ ih => exact List.forall_mem_cons.mpr ⟨⟨_,hab⟩,ih⟩

namespace Catalogue

theorem textLe_trans {a b c : Text} (h : textLe a b = true) (h' : textLe b c = true) : textLe a c = true := by
  induction a generalizing b c with
  | nil => rfl
  | cons x a ih =>
    cases b with
    | nil => cases h
    | cons y b =>
      cases c with
      | nil => cases h'
      | cons z c =>
        simp only [textLe, Bool.or_eq_true, Bool.and_eq_true, decide_eq_true_eq] at h h' ⊢
        rcases h with h | ⟨rfl,h⟩
        · rcases h' with h' | ⟨rfl,-⟩
          · exact .inl (h.trans h')
          · exact .inl h
        · rcases h' with h' | ⟨rfl,h'⟩
          · exact .inl h'
          · exact .inr ⟨rfl,ih h h'⟩

theorem textLe_total (a b : Text) : (textLe a b || textLe b a) = true := by
  induction a generalizing b with
  | nil => rfl
  | cons x a ih =>
    cases b with
    | nil => rfl
    | cons y b =>
      have hrest := ih b
      simp only [textLe, Bool.or_eq_true, Bool.and_eq_true, decide_eq_true_eq] at hrest ⊢
      rcases lt_trichotomy x y with hlt | rfl | hlt
      · exact .inl (.inl hlt)
      · exact hrest.imp (fun h => .inr ⟨rfl,h⟩) fun h => .inr ⟨rfl,h⟩
      · exact .inr (.inl hlt)

variable {sdk : Sdk B} {settings : ProviderSettings}

/-- The adapters that are registered. -/
def configured (sdk : Sdk B) (settings : ProviderSettings) : List (Adapter B) :=
  (sdk.candidates settings).filter fun p => p.isConfigured

theorem candidates_names : ((sdk.candidates settings).map fun p => p.name) =
    [text "mock",text "anthropic",text "openai",text "groq",text "gemini"] ++
      if settings.ollamaEnabled = true then [text "ollama"] else [] := by
  unfold Sdk.candidates
  rw [List.map_append]
  congr 1
  split <;> rfl

theorem configured_nodup : ((configured sdk settings).map fun p => p.name).Nodup := by
  have hall : ((sdk.candidates settings).map fun p => p.name).Nodup := by
    rw [candidates_names]
    split <;> decide
  exact hall.sublist (List.filter_sublist.map _)

theorem configured_name {p : Adapter B} (hp : p ∈ configured sdk settings) : p.name ≠ [] := by
  have hmem : p.name ∈ (sdk.candidates settings).map fun p => p.name := List.mem_map_of_mem (List.mem_filter.mp hp).1
  rw [candidates_names] at hmem
  have hall : ∀ name ∈ [text "mock",text "anthropic",text "openai",text "groq",text "gemini"] ++
      (if settings.ollamaEnabled = true then [text "ollama"] else []), name ≠ [] := by
    split <;> decide
  exact hall _ hmem

theorem mock_configured : sdk.mock.adapter ∈ configured sdk settings :=
  List.mem_filter.mpr ⟨List.mem_cons_self,rfl⟩

/-- Whatever provider the settings ask for, the default one is registered. -/
theorem default_configured : ∃ p ∈ configured sdk settings, p.name = (fromSettings sdk settings).defaultName := by
  unfold fromSettings
  dsimp only
  split
  · rename_i h
    exact List.mem_map.mp (List.contains_iff_mem.mp h)
  · exact ⟨sdk.mock.adapter,mock_configured,rfl⟩

/-- An adapter that is not the mock serves every model, and advertises its default. -/
theorem configured_cases {p : Adapter B} (hp : p ∈ configured sdk settings) :
    p = sdk.mock.adapter ∨ p.name ≠ text "mock" ∧ (∀ model, p.supportsModel model = true) ∧
    p.supportedModels = [p.defaultModel] := by
  obtain ⟨hp,-⟩ := List.mem_filter.mp hp
  unfold Sdk.candidates at hp
  have hopen : ∀ q : BaseProvider B, q.name ≠ text "mock" → p = openCatalogue q →
      p.name ≠ text "mock" ∧ (∀ model, p.supportsModel model = true) ∧ p.supportedModels = [p.defaultModel] := by
    rintro q hq rfl
    exact ⟨hq,fun _ => rfl,rfl⟩
  rcases List.mem_append.mp hp with hp | hp
  · simp only [List.mem_cons, List.not_mem_nil, or_false] at hp
    rcases hp with rfl | rfl | rfl | rfl | rfl
    · exact .inl rfl
    all_goals exact .inr (hopen _ (by change text _ ≠ text _; decide) rfl)
  · split at hp
    · exact .inr (hopen _ (by change text _ ≠ text _; decide) (List.mem_singleton.mp hp))
    · cases hp

/-- A name is got when it is that of a registered adapter. -/
theorem get_iff {name : Option Text} {p : Adapter B} : (fromSettings sdk settings).get name = .ok p ↔
    p ∈ configured sdk settings ∧ p.name = (orText name none).getD (fromSettings sdk settings).defaultName := by
  have hlookup : (fromSettings sdk settings).providers.lookup
      ((orText name none).getD (fromSettings sdk settings).defaultName) = some p ↔
      p ∈ configured sdk settings ∧ p.name = _ := lookup_keyed (@configured_nodup B sdk settings)
  rw [← hlookup]
  unfold get
  dsimp only
  cases (fromSettings sdk settings).providers.lookup ((orText name none).getD (fromSettings sdk settings).defaultName) with
  | some q => exact ⟨fun h => congrArg some (Except.ok.inj h),fun h => congrArg Except.ok (Option.some.inj h)⟩
  | none => exact ⟨fun h => (by cases h),fun h => (by cases h)⟩

/-- The service's registry is the same one. -/
theorem registry_get (c : Catalogue B) (repr : Text → Text) (name : Option Text) :
    (c.registry repr).get name = (c.get name).map Adapter.toRegisteredProvider := by
  have hlookup : ∀ (l : List (Text × Adapter B)) (k : Text),
      (l.map fun p => (p.1,p.2.toRegisteredProvider)).lookup k = (l.lookup k).map Adapter.toRegisteredProvider := by
    intro l k
    induction l with
    | nil => rfl
    | cons p l ih =>
      rw [List.map_cons, List.lookup_cons, List.lookup_cons]
      cases k == p.1
      · exact ih
      · rfl
  unfold ProviderRegistry.get get registry
  dsimp only
  rw [hlookup]
  cases c.providers.lookup ((orText name none).getD c.defaultName) <;> rfl

/-- What a request's provider and model resolve to. -/
theorem resolve_iff {repr : Text → Text} {chat : ChatSettings} {request : SendRequest} {t : Turn B} :
    (⟨(fromSettings sdk settings).registry repr,chat⟩ : ChatService B).resolve request = .ok t ↔
      ∃ p ∈ configured sdk settings, p.name = (orText request.provider none).getD (fromSettings sdk settings).defaultName ∧
        p.supportsModel ((orText request.model none).getD p.defaultModel) = true ∧
        t = ⟨chat,p.toBaseProvider,p.name,(orText request.model none).getD p.defaultModel,
        request.conversationId,request.content⟩ := by
  have hrefused : ∀ x, ((fromSettings sdk settings).registry repr).resolveModel request.provider request.model = .error x →
      (⟨(fromSettings sdk settings).registry repr,chat⟩ : ChatService B).resolve request = .error x := by
    intro x hx
    unfold ChatService.resolve
    dsimp only
    rw [hx]
    rfl
  cases hget : (fromSettings sdk settings).get request.provider with
  | error x =>
    have hmodel : ((fromSettings sdk settings).registry repr).resolveModel request.provider request.model = .error x := by
      unfold ProviderRegistry.resolveModel
      rw [registry_get, hget]
      rfl
    rw [hrefused x hmodel]
    refine ⟨fun h => (by cases h),?_⟩
    rintro ⟨p,hp,hname,-⟩
    rw [get_iff.mpr ⟨hp,hname⟩] at hget
    cases hget
  | ok p =>
    obtain ⟨hp,hname⟩ := get_iff.mp hget
    have hagain : (fromSettings sdk settings).get (some p.name) = .ok p := by
      refine get_iff.mpr ⟨hp,?_⟩
      cases hcs : p.name with
      | nil => exact absurd hcs (configured_name hp)
      | cons c cs => rfl
    have hunique : ∀ q ∈ configured sdk settings,
        q.name = (orText request.provider none).getD (fromSettings sdk settings).defaultName → q = p := by
      intro q hq hqname
      have hsame := get_iff.mpr ⟨hq,hqname⟩
      rw [hget] at hsame
      exact (Except.ok.inj hsame).symm
    by_cases hserves : p.supportsModel ((orText request.model none).getD p.defaultModel) = true
    · have hmodel : ((fromSettings sdk settings).registry repr).resolveModel request.provider request.model =
          .ok (p.name,(orText request.model none).getD p.defaultModel) := by
        unfold ProviderRegistry.resolveModel
        rw [registry_get, hget]
        exact if_pos hserves
      have hresolved : (⟨(fromSettings sdk settings).registry repr,chat⟩ : ChatService B).resolve request =
          .ok ⟨chat,p.toBaseProvider,p.name,(orText request.model none).getD p.defaultModel,
            request.conversationId,request.content⟩ := by
        unfold ChatService.resolve
        dsimp only
        rw [hmodel]
        change (((fromSettings sdk settings).registry repr).get (some p.name) >>= _) = _
        rw [registry_get, hagain]
        rfl
      rw [hresolved]
      constructor
      · intro h
        exact ⟨p,hp,hname,hserves,(Except.ok.inj h).symm⟩
      · rintro ⟨q,hq,hqname,-,rfl⟩
        rw [hunique q hq hqname]
    · have hmodel : ∃ x, ((fromSettings sdk settings).registry repr).resolveModel request.provider request.model = .error x := by
        unfold ProviderRegistry.resolveModel
        rw [registry_get, hget]
        exact ⟨_,if_neg hserves⟩
      obtain ⟨x,hx⟩ := hmodel
      rw [hrefused x hx]
      refine ⟨fun h => (by cases h),?_⟩
      rintro ⟨q,hq,hqname,hqserves,-⟩
      rw [hunique q hq hqname] at hqserves
      exact absurd hqserves hserves

/-! ## The list -/

/-- The entry of an adapter. -/
def entry (c : Catalogue B) (p : Adapter B) : ProviderInfo :=
  ⟨p.name,p.defaultModel,decide (p.name = c.defaultName),p.supportedModels⟩

theorem info_configured {p : Adapter B} (hp : p ∈ configured sdk settings) :
    (fromSettings sdk settings).info p.name = .ok ((fromSettings sdk settings).entry p) := by
  have hget : (fromSettings sdk settings).get (some p.name) = .ok p := by
    refine get_iff.mpr ⟨hp,?_⟩
    cases hcs : p.name with
    | nil => exact absurd hcs (configured_name hp)
    | cons c cs => rfl
  unfold info
  rw [hget]
  rfl

theorem mem_available {name : Text} : name ∈ (fromSettings sdk settings).available ↔
    ∃ p ∈ configured sdk settings, p.name = name := by
  unfold available
  rw [List.mem_mergeSort]
  change name ∈ ((configured sdk settings).map fun p => (p.name,p)).map Prod.fst ↔ _
  rw [List.map_map, List.mem_map]
  rfl

/-- What `GET /providers` answers: an entry for every registered adapter, by name. -/
structure Lists (c : Catalogue B) (adapters : List (Adapter B)) (list : ProviderList) : Prop where
  entries : ∀ info, info ∈ list.items ↔ ∃ p ∈ adapters, info = c.entry p
  sorted : (list.items.map ProviderInfo.name).Pairwise fun a b => textLe a b = true ∧ a ≠ b
  default : ∃ p ∈ adapters, p.name = list.default ∧ list.default = c.defaultName

theorem listProviders_lists : ∃ list, (fromSettings sdk settings).listProviders = .ok list ∧
    (fromSettings sdk settings).Lists (configured sdk settings) list := by
  have hinfo : ∀ name ∈ (fromSettings sdk settings).available, ∃ info, (fromSettings sdk settings).info name = .ok info := by
    intro name hname
    obtain ⟨p,hp,rfl⟩ := mem_available.mp hname
    exact ⟨_,info_configured hp⟩
  obtain ⟨items,hitems,hall⟩ := mapM_forall₂ hinfo
  have hentry : List.Forall₂ (fun name info => ∃ p ∈ configured sdk settings, p.name = name ∧
      info = (fromSettings sdk settings).entry p) (fromSettings sdk settings).available items := by
    refine List.Forall₂.mp (Q := fun name _ => name ∈ (fromSettings sdk settings).available) ?_ ?_ hall
    · intro name info hname h
      obtain ⟨p,hp,rfl⟩ := mem_available.mp hname
      rw [info_configured hp] at h
      exact ⟨p,hp,rfl,(Except.ok.inj h).symm⟩
    · refine List.forall₂_iff_zip.mpr ⟨hall.length_eq,fun hab => (List.of_mem_zip hab).1⟩
  have hnames : items.map ProviderInfo.name = (fromSettings sdk settings).available := by
    generalize (fromSettings sdk settings).available = names at hentry
    clear hitems hall hinfo
    induction hentry with
    | nil => rfl
    | cons h _ ih =>
      obtain ⟨p,-,rfl,rfl⟩ := h
      exact congrArg (List.cons p.name) ih
  refine ⟨⟨items,(fromSettings sdk settings).defaultName⟩,?_,?_,?_,?_⟩
  · unfold listProviders
    rw [hitems]
    rfl
  · intro info
    constructor
    · intro hmem
      obtain ⟨name,p,hp,-,rfl⟩ := forall₂_right hentry info hmem
      exact ⟨p,hp,rfl⟩
    · rintro ⟨p,hp,rfl⟩
      have hname : p.name ∈ items.map ProviderInfo.name := by
        rw [hnames]
        exact mem_available.mpr ⟨p,hp,rfl⟩
      obtain ⟨info,hmem,hsame⟩ := List.mem_map.mp hname
      obtain ⟨name,q,hq,-,rfl⟩ := forall₂_right hentry info hmem
      have hpq : q = p := List.inj_on_of_nodup_map configured_nodup hq hp hsame
      rwa [hpq] at hmem
  · rw [hnames]
    have hsorted := @List.pairwise_mergeSort _ textLe (fun _ _ _ => textLe_trans) textLe_total
      ((fromSettings sdk settings).providers.map Prod.fst)
    have hnodup : (fromSettings sdk settings).available.Nodup := by
      refine (List.mergeSort_perm _ _).nodup_iff.mpr ?_
      change (((configured sdk settings).map fun p => (p.name,p)).map Prod.fst).Nodup
      rw [List.map_map]
      exact configured_nodup
    exact hsorted.and hnodup
  · obtain ⟨p,hp,hname⟩ := @default_configured B sdk settings
    exact ⟨p,hp,hname,rfl⟩

end Catalogue

/-! ## The picker -/

namespace Picker
open Catalogue

/-- The value of an option; the one without a value is `none` below. -/
structure Selection where
  provider : Text
  model : Text

/-- The behaviours of the mock that the picker spells out. -/
def mockModels : List Text := [text "mock",text "mock-slow",text "mock-error",text "mock-cancel"]

def options (providers : ProviderList) : List Selection := providers.items.flatMap fun provider =>
  if provider.name = text "mock" then mockModels.map fun value => ⟨text "mock",value⟩
  else provider.models.map fun name => ⟨provider.name,name⟩

/-- What `handleSend` sends: both names, or neither. -/
def sendRequest (selection : Option Selection) (conversationId : Option Uuid) (content : Text) : SendRequest where
  content := content
  conversationId := conversationId
  provider := selection.map Selection.provider
  model := selection.map Selection.model

/-- What the user can pick. -/
def Offered (providers : ProviderList) : Option Selection → Prop
  | none => True
  | some selection => selection ∈ options providers

variable {sdk : Sdk B} {settings : ProviderSettings}

/-- An option is a registered adapter's, and a model that it serves. -/
theorem option_served {providers : ProviderList} (h : (fromSettings sdk settings).Lists (configured sdk settings) providers)
    {selection : Selection} (hs : selection ∈ options providers) : ∃ p ∈ configured sdk settings, p.name = selection.provider ∧
      p.supportsModel selection.model = true ∧ (selection.model = [] → p.defaultModel = []) := by
  obtain ⟨info,hinfo,hmem⟩ := List.mem_flatMap.mp hs
  obtain ⟨p,hp,rfl⟩ := (h.entries info).mp hinfo
  by_cases hname : p.name = text "mock"
  · rw [if_pos (show ((fromSettings sdk settings).entry p).name = text "mock" from hname)] at hmem
    obtain ⟨value,hvalue,rfl⟩ := List.mem_map.mp hmem
    rcases configured_cases hp with rfl | ⟨hne,-⟩
    · have hserved : ∀ value ∈ mockModels, (MockProvider.delays.map Prod.fst).contains value = true := by decide
      refine ⟨_,hp,rfl,hserved value hvalue,fun hnil => ?_⟩
      · dsimp only at hnil
        subst hnil
        exact absurd hvalue (by decide)
    · exact absurd hname hne
  · rw [if_neg (show ¬ ((fromSettings sdk settings).entry p).name = text "mock" from hname)] at hmem
    obtain ⟨model,hmodel,rfl⟩ := List.mem_map.mp hmem
    rcases configured_cases hp with rfl | ⟨-,hserves,hmodels⟩
    · exact absurd rfl hname
    · change model ∈ p.supportedModels at hmodel
      rw [hmodels, List.mem_singleton] at hmodel
      exact ⟨p,hp,rfl,hserves _,fun hnil => hmodel.symm.trans hnil⟩

theorem default_served {p : Adapter B} (hp : p ∈ configured sdk settings) : p.supportsModel p.defaultModel = true := by
  rcases configured_cases hp with rfl | ⟨-,hserves,-⟩
  · have hserved : decide (text "mock" ∈ MockProvider.delays.map Prod.fst) = true := by decide
    exact hserved
  · exact hserves _

theorem orText_some {t : Text} (h : t ≠ []) : orText (some t) none = some t := by
  cases t with
  | nil => exact absurd rfl h
  | cons c cs => rfl

theorem mem_names {providers : ProviderList} (h : (fromSettings sdk settings).Lists
    (Catalogue.configured sdk settings) providers)
    {name : Text} : name ∈ providers.items.map ProviderInfo.name ↔ ∃ p ∈ Catalogue.configured sdk settings, p.name = name := by
  rw [List.mem_map]
  constructor
  · rintro ⟨info,hinfo,rfl⟩
    obtain ⟨p,hp,rfl⟩ := (h.entries info).mp hinfo
    exact ⟨p,hp,rfl⟩
  · rintro ⟨p,hp,rfl⟩
    exact ⟨_,(h.entries _).mpr ⟨p,hp,rfl⟩,rfl⟩

section
variable {repr : Text → Text} {chat : ChatSettings}

/-- What is offered resolves to what was picked. -/
theorem offered_resolves {providers : ProviderList}
    (h : (fromSettings sdk settings).Lists (Catalogue.configured sdk settings) providers)
    {selection : Option Selection} (ho : Offered providers selection) (conversationId : Option Uuid) (content : Text) :
    ∃ p ∈ Catalogue.configured sdk settings, ∃ model,
      (⟨(fromSettings sdk settings).registry repr,chat⟩ : ChatService B).resolve (sendRequest selection conversationId content) =
        .ok ⟨chat,p.toBaseProvider,p.name,model,conversationId,content⟩ ∧
      (∀ s, selection = some s → p.name = s.provider ∧ model = s.model) ∧
      (selection = none → p.name = providers.default ∧ model = p.defaultModel) := by
  cases selection with
  | none =>
    obtain ⟨p,hp,hname,hdefault⟩ := h.default
    exact ⟨p,hp,p.defaultModel,resolve_iff.mpr ⟨p,hp,hname.trans hdefault,default_served hp,rfl⟩,fun s hs => (by cases hs),
      fun _ => ⟨hname,rfl⟩⟩
  | some s =>
    obtain ⟨p,hp,hname,hserves,hempty⟩ := option_served h ho
    have hprovider : orText (some s.provider) none = some s.provider := orText_some (hname ▸ configured_name hp)
    have hmodel : (orText (some s.model) none).getD p.defaultModel = s.model := by
      by_cases hnil : s.model = []
      · rw [hnil, hempty hnil]
        rfl
      · rw [orText_some hnil]
        rfl
    refine ⟨p,hp,s.model,resolve_iff.mpr ⟨p,hp,?_,?_,?_⟩,fun s' hs => ?_,fun hs => (by cases hs)⟩
    · change p.name = (orText (some s.provider) none).getD _
      rw [hprovider]
      exact hname
    · change p.supportsModel ((orText (some s.model) none).getD p.defaultModel) = true
      rw [hmodel]
      exact hserves
    · change _ = (⟨chat,p.toBaseProvider,p.name,(orText (some s.model) none).getD p.defaultModel,
        conversationId,content⟩ : Turn B)
      rw [hmodel]
    · cases hs
      exact ⟨hname,rfl⟩

/-- What is refused. -/
theorem refused_iff {providers : ProviderList}
    (h : (fromSettings sdk settings).Lists (Catalogue.configured sdk settings) providers)
    (request : SendRequest) :
    (∃ x, (⟨(fromSettings sdk settings).registry repr,chat⟩ : ChatService B).resolve request = .error x) ↔
      (∃ name, orText request.provider none = some name ∧ name ∉ providers.items.map ProviderInfo.name) ∨
      (orText request.provider none).getD providers.default = text "mock" ∧
        ∃ model, orText request.model none = some model ∧ model ∉ MockProvider.delays.map Prod.fst := by
  obtain ⟨q,hq,hqname,hdefault⟩ := h.default
  have hresolved : (∃ x, (⟨(fromSettings sdk settings).registry repr,chat⟩ : ChatService B).resolve request = .error x) ↔
      ¬ ∃ p ∈ Catalogue.configured sdk settings, p.name = (orText request.provider none).getD providers.default ∧
        p.supportsModel ((orText request.model none).getD p.defaultModel) = true := by
    rw [hdefault]
    constructor
    · rintro ⟨x,hx⟩ ⟨p,hp,hname,hserves⟩
      rw [resolve_iff.mpr ⟨p,hp,hname,hserves,rfl⟩] at hx
      cases hx
    · intro hnone
      cases hcase : (⟨(fromSettings sdk settings).registry repr,chat⟩ : ChatService B).resolve request with
      | error x => exact ⟨x,rfl⟩
      | ok t =>
        obtain ⟨p,hp,hname,hserves,-⟩ := resolve_iff.mp hcase
        exact absurd ⟨p,hp,hname,hserves⟩ hnone
  rw [hresolved]
  constructor
  · intro hnone
    by_cases hlisted : ∃ p ∈ Catalogue.configured sdk settings, p.name = (orText request.provider none).getD providers.default
    · obtain ⟨p,hp,hname⟩ := hlisted
      rcases configured_cases hp with rfl | ⟨-,hserves,-⟩
      · cases hmodel : orText request.model none with
        | none =>
          rw [hmodel] at hnone
          exact absurd ⟨_,hp,hname,default_served hp⟩ hnone
        | some model =>
          refine .inr ⟨hname.symm,model,rfl,fun hmem => hnone ⟨_,hp,hname,?_⟩⟩
          rw [hmodel]
          exact List.contains_iff_mem.mpr hmem
      · exact absurd ⟨p,hp,hname,hserves _⟩ hnone
    · cases hprovider : orText request.provider none with
      | none =>
        rw [hprovider] at hlisted
        exact absurd ⟨q,hq,hqname⟩ hlisted
      | some name =>
        rw [hprovider] at hlisted
        exact .inl ⟨name,rfl,fun hmem => hlisted ((mem_names h).mp hmem)⟩
  · rintro (⟨name,hprovider,hmem⟩ | ⟨hmock,model,hmodel,hmem⟩) ⟨p,hp,hname,hserves⟩
    · rw [hprovider] at hname
      exact hmem ((mem_names h).mpr ⟨p,hp,hname⟩)
    · rcases configured_cases hp with rfl | ⟨hne,-⟩
      · rw [hmodel] at hserves
        exact hmem (List.contains_iff_mem.mp hserves)
      · exact hne (hname.trans hmock)

end

/-- A turn that goes to a registered adapter, asking for no more than it takes. -/
structure Goes (sdk : Sdk B) (settings : ProviderSettings) (chat : ChatSettings) (t : Turn B) : Prop where
  registered : ∃ p ∈ configured sdk settings, t.adapter = p.toBaseProvider
  configured : t.adapter.isConfigured = true
  name : t.adapter.name = t.provider
  budget : ∀ history, (t.request history).maxOutputTokens ≤ chat.maxOutputTokens
  cap : ∀ cap, t.adapter.maxOutputTokensCap = some cap → ∀ history, (t.request history).maxOutputTokens ≤ cap

theorem goes_of_adapter {chat : ChatSettings} {p : Adapter B} (hp : p ∈ Catalogue.configured sdk settings) (model : Text)
    (conversationId : Option Uuid) (content : Text) :
    Goes sdk settings chat ⟨chat,p.toBaseProvider,p.name,model,conversationId,content⟩ where
  registered := ⟨p,hp,rfl⟩
  configured := (List.mem_filter.mp hp).2
  name := rfl
  budget := by
    intro history
    change BaseProvider.clampOutputTokens _ _ ≤ _
    unfold BaseProvider.clampOutputTokens
    split
    · exact min_le_left _ _
    · exact le_refl _
  cap := by
    intro cap hcap history
    change BaseProvider.clampOutputTokens _ _ ≤ _
    unfold BaseProvider.clampOutputTokens
    rw [show p.toBaseProvider.maxOutputTokensCap = some cap from hcap]
    exact min_le_right _ _

/-- Whatever the settings: the picker's list is never refused, and nothing that it offers is
refused. What is picked is what the turn goes to, and without a pick it goes to the default
adapter and the model listed as its default. A request is refused exactly when it names a
provider that is not listed, or asks the mock for a model it has not. -/
theorem nothing_offered_is_refused (sdk : Sdk B) (settings : ProviderSettings) (repr : Text → Text) (chat : ChatSettings) :
    ∃ providers, (fromSettings sdk settings).listProviders = .ok providers ∧
      (fromSettings sdk settings).Lists (Catalogue.configured sdk settings) providers ∧
      (∀ selection, Offered providers selection → ∀ conversationId content, ∃ t,
        (⟨(fromSettings sdk settings).registry repr,chat⟩ : ChatService B).resolve
        (sendRequest selection conversationId content) = .ok t ∧
        Goes sdk settings chat t ∧ (∀ s, selection = some s → t.provider = s.provider ∧ t.model = s.model) ∧
        (selection = none → t.provider = providers.default ∧
          ∃ info ∈ providers.items, info.name = providers.default ∧ t.model = info.defaultModel)) ∧
      ∀ request, (∃ x, (⟨(fromSettings sdk settings).registry repr,chat⟩ : ChatService B).resolve request = .error x) ↔
        (∃ name, orText request.provider none = some name ∧ name ∉ providers.items.map ProviderInfo.name) ∨
        (orText request.provider none).getD providers.default = text "mock" ∧
          ∃ model, orText request.model none = some model ∧ model ∉ MockProvider.delays.map Prod.fst := by
  obtain ⟨providers,hlist,hlists⟩ := @listProviders_lists B sdk settings
  refine ⟨providers,hlist,hlists,fun selection ho conversationId content => ?_,refused_iff hlists⟩
  obtain ⟨p,hp,model,hresolved,hpicked,hdefault⟩ := offered_resolves hlists ho conversationId content
  refine ⟨_,hresolved,goes_of_adapter hp model conversationId content,hpicked,fun hnone => ?_⟩
  obtain ⟨hname,hmodel⟩ := hdefault hnone
  exact ⟨hname,_,(hlists.entries _).mpr ⟨p,hp,rfl⟩,hname,hmodel⟩

end Picker
end InferenceLogger

import SettingsHarvest.Extraction

/-! Projects that hold the same files.

A project finds its files by their paths, so the order in which it came by them is nowhere seen. Two
projects that find the same file under every path and are otherwise the same (`SameFiles`) answer every
question alike: with the same result, or with the same failure or fault in the same words. There is a
lemma for each function that is given a project, and each rests on those of the functions it calls; where
one calls itself, the induction is on its own bound or list. -/
namespace SettingsHarvest
open Syntax

namespace Project

/-- Projects that find the same files and are otherwise the same. -/
structure SameFiles (p p' : Project) : Prop where
  known : p.known? = p'.known?
  readable : p.readable = p'.readable
  closed : p.closed = p'.closed
  workingDirectory : p.workingDirectory = p'.workingDirectory
  root : p.root = p'.root
  aliases : p.aliases = p'.aliases
  enums : p.enums = p'.enums
  lookups : p.lookups = p'.lookups

namespace SameFiles

variable {p p' : Project} (h : p.SameFiles p')

include h

/-! ### Files -/

theorem place : p.place = p'.place := by
  funext path
  rw [Project.place, Project.place, h.workingDirectory, h.root]

theorem file : p.file? = p'.file? := by
  funext path
  rw [file?, file?, h.known, h.readable]

theorem aliasTarget : p.aliasTarget? = p'.aliasTarget? := by
  funext specifier
  rw [aliasTarget?, aliasTarget?, h.root, h.aliases]

/-- Imports lead to the same files. -/
theorem importedFile : p.module? = p'.module? := by
  funext importer specifier
  rw [module?, module?, h.aliasTarget, h.place, h.file, h.closed]

/-! ### References -/

theorem followImport : p.followImport = p'.followImport := by
  funext file d
  rw [Project.followImport, Project.followImport, h.importedFile]

theorem declaration : p.declaration? = p'.declaration? := by
  funext name
  rw [declaration?, declaration?, h.followImport]

theorem initializer : p.initializer? = p'.initializer? := by
  funext name
  rw [initializer?, initializer?, h.declaration]

theorem chain : p.chain = p'.chain := by
  funext object? steps
  induction steps with
  | zero => rfl
  | succ steps ih =>
    funext s
    rw [Project.chain, Project.chain, h.initializer, ih]

theorem denotedWithin : p.denotedWithin = p'.denotedWithin := by
  funext depth
  induction depth with
  | zero => rfl
  | succ depth ih =>
    funext s
    rw [Project.denotedWithin, Project.denotedWithin, h.chain, ih]

theorem denoted : p.denoted? = p'.denoted? := by
  funext s
  rw [denoted?, denoted?, h.denotedWithin]

theorem object : p.object? = p'.object? := by
  funext s
  rw [object?, object?, h.denoted]

theorem array : p.array? = p'.array? := by
  funext s
  rw [array?, array?, h.denoted]

/-! ### Values -/

theorem enumMember : p.enumMember? = p'.enumMember? := by
  funext enumeration member
  rw [enumMember?, enumMember?, h.enums]

theorem container : p.container? = p'.container? := by
  funext b base
  rw [container?, container?, h.denoted]

theorem declaredEnumMember : p.declaredEnumMember? = p'.declaredEnumMember? := by
  funext recur b base key
  rw [declaredEnumMember?, declaredEnumMember?, h.declaration]

theorem accessValue : p.accessValue = p'.accessValue := by
  funext recur b base key
  rw [Project.accessValue, Project.accessValue, h.declaredEnumMember, h.container, h.enumMember]

theorem memberValue : p.memberValue = p'.memberValue := by
  funext recur b s
  rw [Project.memberValue, Project.memberValue, h.accessValue]

theorem elementValue : p.elementValue = p'.elementValue := by
  funext recur b s
  rw [Project.elementValue, Project.elementValue, h.accessValue]

theorem nameValue : p.nameValue = p'.nameValue := by
  funext recur b s
  rw [Project.nameValue, Project.nameValue, h.initializer]

theorem valueOf : p.valueOf = p'.valueOf := by
  funext recur b s
  rw [Project.valueOf, Project.valueOf, h.nameValue, h.memberValue, h.elementValue]

theorem evaluateWithin : p.evaluateWithin = p'.evaluateWithin := by
  funext depth
  induction depth with
  | zero => rfl
  | succ depth ih =>
    funext s b
    rw [Project.evaluateWithin, Project.evaluateWithin, h.valueOf, ih]

theorem evaluate : p.evaluate = p'.evaluate := by
  funext s b
  rw [Project.evaluate, Project.evaluate, h.evaluateWithin]

theorem enumMembers : p.enumMembers = p'.enumMembers := by
  funext enumeration
  rw [Project.enumMembers, Project.enumMembers, h.evaluateWithin]

theorem fieldsOf : p.fieldsOf = p'.fieldsOf := by
  funext pairs
  rw [Project.fieldsOf, Project.fieldsOf, h.evaluate]

theorem evaluateObject : p.evaluateObject = p'.evaluateObject := by
  funext object
  rw [Project.evaluateObject, Project.evaluateObject, h.fieldsOf]

/-! ### Choices -/

theorem optionsExpression : p.optionsExpression = p'.optionsExpression := by
  funext s
  rw [Project.optionsExpression, Project.optionsExpression, h.denoted]

theorem spreadElements : p.spreadElements = p'.spreadElements := by
  funext elements
  induction elements with
  | nil => rfl
  | cons e rest ih => rw [Project.spreadElements, Project.spreadElements, h.array, ih]

theorem mapElements : p.mapElements = p'.mapElements := by
  funext receiver
  rw [Project.mapElements, Project.mapElements, h.denoted, h.spreadElements, h.object]

theorem optionOf : p.optionOf = p'.optionOf := by
  funext b object
  rw [Project.optionOf, Project.optionOf, h.evaluate]

theorem elementOption : p.elementOption = p'.elementOption := by
  funext e
  rw [Project.elementOption, Project.elementOption, h.optionOf, h.evaluate]

theorem innerOptions : p.innerOptions = p'.innerOptions := by
  funext list
  rw [Project.innerOptions, Project.innerOptions, h.elementOption]

theorem listOptions : p.listOptions = p'.listOptions := by
  funext list
  rw [Project.listOptions, Project.listOptions, h.array, h.innerOptions, h.elementOption]

theorem mapCallback : p.mapCallback? = p'.mapCallback? := by
  funext call
  rw [mapCallback?, mapCallback?, h.denoted]

theorem literalList : literalList p = literalList p' := by
  funext s
  rw [Project.literalList, Project.literalList, h.evaluate]

theorem objectList : objectList p = objectList p' := by
  funext s
  rw [Project.objectList, Project.objectList, h.listOptions]

theorem mappedList : mappedList p = mappedList p' := by
  funext s
  rw [Project.mappedList, Project.mappedList, h.mapElements, h.mapCallback, h.optionOf]

theorem copiedList : copiedList p = copiedList p' := by
  funext s
  rw [Project.copiedList, Project.copiedList, h.array, h.literalList]

theorem textConstant : p.textConstant? = p'.textConstant? := by
  funext s name
  rw [textConstant?, textConstant?, h.evaluate]

theorem helperText : p.helperText = p'.helperText := by
  funext table call name
  rw [Project.helperText, Project.helperText, h.textConstant, h.lookups]

theorem entryText : p.entryText = p'.entryText := by
  funext table entry
  rw [Project.entryText, Project.entryText, h.helperText]

theorem entryTexts : p.entryTexts = p'.entryTexts := by
  funext table pairs
  induction pairs with
  | nil => rfl
  | cons pair rest ih => rw [Project.entryTexts, Project.entryTexts, h.entryText, ih]

theorem tableTexts : p.tableTexts = p'.tableTexts := by
  funext table
  rw [Project.tableTexts, Project.tableTexts, h.entryTexts]

theorem tableExpression : p.tableExpression? = p'.tableExpression? := by
  funext call
  rw [tableExpression?, tableExpression?, h.mapCallback, h.denoted]

theorem tableList : tableList p = tableList p' := by
  funext s
  rw [Project.tableList, Project.tableList, h.tableExpression, h.object, h.tableTexts]

/-- Every idiom reads the same. -/
theorem idiom {idiom : Idiom} (hidiom : idiom ∈ idioms) : idiom p = idiom p' := by
  simp only [idioms, List.mem_cons, List.not_mem_nil, or_false] at hidiom
  rcases hidiom with rfl | rfl | rfl | rfl | rfl
  · exact h.literalList
  · exact h.objectList
  · exact h.mappedList
  · exact h.copiedList
  · exact h.tableList

theorem firstChoices {s : Site} {last : Failure} {tried : List Idiom} (htried : tried ⊆ idioms) :
    p.firstChoices s last tried = p'.firstChoices s last tried := by
  induction tried generalizing last with
  | nil => rfl
  | cons idiom rest ih =>
    obtain ⟨hidiom, hrest⟩ := List.cons_subset.1 htried
    simp only [Project.firstChoices, h.idiom hidiom, ih hrest]

theorem matchOptions : p.matchOptions = p'.matchOptions := by
  funext s
  simp only [Project.matchOptions, h.optionsExpression, h.firstChoices (List.Subset.refl idioms)]

theorem choicesOf : p.choicesOf = p'.choicesOf := by
  funext setting
  rw [Project.choicesOf, Project.choicesOf, h.matchOptions]

/-! ### Defaults -/

theorem calledFunction : p.calledFunction? = p'.calledFunction? := by
  funext call
  rw [calledFunction?, calledFunction?, h.initializer]

theorem calledBody : p.calledBody? = p'.calledBody? := by
  funext call
  rw [calledBody?, calledBody?, h.calledFunction]

theorem callShape : p.callShape? = p'.callShape? := by
  funext call
  rw [callShape?, callShape?, h.calledBody]

theorem scalarLiteral : p.scalarLiteral? = p'.scalarLiteral? := by
  funext init
  rw [scalarLiteral?, scalarLiteral?, h.evaluate]

theorem denotedShape : p.denotedShape = p'.denotedShape := by
  funext s
  rw [Project.denotedShape, Project.denotedShape, h.denoted, h.callShape]

theorem shapeOf : p.shapeOf = p'.shapeOf := by
  funext init literal
  rw [Project.shapeOf, Project.shapeOf, h.callShape, h.denotedShape]

theorem isStringArrayDefault : p.isStringArrayDefault = p'.isStringArrayDefault := by
  funext init
  rw [Project.isStringArrayDefault, Project.isStringArrayDefault, h.initializer]

theorem isObjectArrayDefault : p.isObjectArrayDefault = p'.isObjectArrayDefault := by
  funext init
  rw [Project.isObjectArrayDefault, Project.isObjectArrayDefault, h.calledBody, h.initializer]

theorem isEmptyTypedArrayDefault : p.isEmptyTypedArrayDefault = p'.isEmptyTypedArrayDefault := by
  funext init
  rw [Project.isEmptyTypedArrayDefault, Project.isEmptyTypedArrayDefault, h.calledBody]

theorem declaredShapeOf : p.declaredShapeOf = p'.declaredShapeOf := by
  funext init
  rw [Project.declaredShapeOf, Project.declaredShapeOf, h.declaration]

theorem inspectInitializer : p.inspectInitializer = p'.inspectInitializer := by
  funext init
  rw [Project.inspectInitializer, Project.inspectInitializer, h.scalarLiteral, h.declaration, h.denoted,
    h.shapeOf, h.isStringArrayDefault, h.isObjectArrayDefault, h.isEmptyTypedArrayDefault,
    h.declaredShapeOf]

theorem inspectDefault : p.inspectDefault = p'.inspectDefault := by
  funext setting
  rw [Project.inspectDefault, Project.inspectDefault, h.inspectInitializer]

theorem comparisonHolds : p.comparisonHolds = p'.comparisonHolds := by
  funext marker b
  rw [Project.comparisonHolds, Project.comparisonHolds, h.evaluate]

theorem markerHolds : p.markerHolds = p'.markerHolds := by
  funext marker b
  rw [Project.markerHolds, Project.markerHolds, h.comparisonHolds]

theorem comparisonConstant : p.comparisonConstant? = p'.comparisonConstant? := by
  funext marker
  rw [comparisonConstant?, comparisonConstant?, h.evaluate]

theorem optionValue : p.optionValue? = p'.optionValue? := by
  funext object b
  rw [optionValue?, optionValue?, h.evaluate]

theorem markedValue : p.markedValue? = p'.markedValue? := by
  funext object
  rw [markedValue?, markedValue?, h.optionValue]

theorem markedAmong : p.markedAmong = p'.markedAmong := by
  funext inside elements
  rw [Project.markedAmong, Project.markedAmong, h.array, h.markedValue]

theorem markerInList : p.markerInList? = p'.markerInList? := by
  funext list
  rw [markerInList?, markerInList?, h.markedAmong]

theorem firstMarked : p.firstMarked? = p'.firstMarked? := by
  funext body marker b
  rw [firstMarked?, firstMarked?, h.markerHolds, h.optionValue]

theorem firstKey : p.firstKey? = p'.firstKey? := by
  funext receiver
  rw [firstKey?, firstKey?, h.object]

theorem markerInMap : p.markerInMap? = p'.markerInMap? := by
  funext call
  rw [markerInMap?, markerInMap?, h.mapCallback, h.denoted, h.mapElements, h.firstMarked,
    h.comparisonConstant, h.firstKey]

theorem defaultMarker : p.defaultMarker? = p'.defaultMarker? := by
  funext setting
  rw [defaultMarker?, defaultMarker?, h.optionsExpression, h.markerInList, h.markerInMap]

theorem foldCall : p.foldCall = p'.foldCall := by
  funext call
  rw [Project.foldCall, Project.foldCall, h.callShape, h.evaluateObject]

theorem attrsDefault : p.attrsDefault = p'.attrsDefault := by
  funext e
  rw [Project.attrsDefault, Project.attrsDefault, h.foldCall]

theorem resolveDefault : p.resolveDefault = p'.resolveDefault := by
  funext setting target e choices t
  unfold Project.resolveDefault
  rw [h.defaultMarker, h.attrsDefault]

/-! ### Settings -/

theorem memberOptionType : p.memberOptionType? = p'.memberOptionType? := by
  funext access
  rw [memberOptionType?, memberOptionType?, h.declaration, h.enumMembers]

theorem optionTypeOf : p.optionTypeOf = p'.optionTypeOf := by
  funext setting
  rw [Project.optionTypeOf, Project.optionTypeOf, h.memberOptionType, h.evaluate]

theorem inspect : p.inspect = p'.inspect := by
  funext setting
  rw [Project.inspect, Project.inspect, h.optionTypeOf, h.choicesOf, h.inspectDefault]

theorem extractSetting : p.extractSetting = p'.extractSetting := by
  funext name object
  rw [Project.extractSetting, Project.extractSetting, h.inspect, h.resolveDefault]

theorem entriesOf : p.entriesOf = p'.entriesOf := by
  funext retainHidden group pairs
  rw [Project.entriesOf, Project.entriesOf, h.extractSetting]

theorem extractWithin : p.extractWithin = p'.extractWithin := by
  funext retainHidden depth
  induction depth with
  | zero => rfl
  | succ depth ih =>
    funext object
    rw [Project.extractWithin, Project.extractWithin, h.entriesOf, ih]

theorem extract : p.extract = p'.extract := by
  funext object retainHidden
  rw [Project.extract, Project.extract, h.extractWithin]

end SameFiles
end Project
end SettingsHarvest

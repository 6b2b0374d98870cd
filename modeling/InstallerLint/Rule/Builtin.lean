import InstallerLint.Rule.Basic

/-!
# The standard rules

The rules that are always there, unless a rule file replaces one of them.
-/

namespace InstallerLint
namespace RuleSet

/-- The standard rules in order. -/
def standardRules : List Rule := [
  { id := "BP-IDIOM-001"
    name := "missing-major-upgrade"
    description := "Package should have a MajorUpgrade element for proper upgrade handling."
    severity := .medium
    category := "best-practice"
    element := "Package"
    condition := .missingChild "MajorUpgrade"
    message := "Package is missing MajorUpgrade element"
    help := "Add <MajorUpgrade DowngradeErrorMessage=\"A newer version is already installed.\" /> to enable proper upgrade handling"
    fix := some ⟨"Add MajorUpgrade element", {
      kind := "add-element"
      name := ""
      value := ""
      element := "MajorUpgrade"
      attributes := [⟨"DowngradeErrorMessage", "A newer version is already installed."⟩]
      position := "first" }⟩
    effortMinutes := 5 },
  { id := "BP-IDIOM-002"
    name := "hardcoded-component-guid"
    description := "Component should use an auto-generated GUID (*) instead of a hardcoded value."
    severity := .low
    category := "best-practice"
    element := "Component"
    condition := .all [
      .attributeExists "Guid",
      .attributeNotEquals "Guid" "*",
      .attributeMatches "Guid" "^[\x7b(]?[0-9a-fA-F-]\x7b36\x7d[)\x7d]?$"]
    message := "Component '\x7b\x7bid\x7d\x7d' has hardcoded GUID, consider using Guid=\"*\" for auto-generation"
    fix := some ⟨"Use auto-generated GUID", {
      kind := "replace-attribute"
      name := "Guid"
      value := "*"
      element := ""
      attributes := []
      position := "" }⟩
    effortMinutes := 2 },
  { id := "BP-IDIOM-003"
    name := "deprecated-product-element"
    description := "The Product element is deprecated in WiX v4; use Package instead."
    severity := .medium
    category := "best-practice"
    element := "Product"
    condition := .always
    message := "Product element is deprecated in WiX v4"
    help := "Replace <Product> with <Package> for WiX v4 compatibility"
    effortMinutes := 30 },
  { id := "BP-IDIOM-004"
    name := "missing-upgrade-code"
    description := "Package should have an UpgradeCode for proper upgrade support."
    severity := .high
    category := "best-practice"
    element := "Package"
    condition := .attributeMissing "UpgradeCode"
    message := "Package is missing UpgradeCode attribute"
    help := "Add UpgradeCode=\"\x7bGUID\x7d\" to enable upgrade detection"
    effortMinutes := 5 },
  { id := "BP-PERF-001"
    name := "multi-file-component"
    description := "Component should contain only one file for optimal repair behavior."
    severity := .low
    category := "performance"
    element := "Component"
    condition := .childCount "File" .gt 1
    message := "Component '\x7b\x7bid\x7d\x7d' contains \x7b\x7bchildren.File\x7d\x7d files, consider splitting into separate components"
    help := "Components with single files have better repair behavior and a smaller reinstall footprint"
    effortMinutes := 15 },
  { id := "BP-MAINT-001"
    name := "hardcoded-absolute-path"
    description := "Avoid hardcoded absolute paths in the Source attribute."
    severity := .medium
    category := "maintainability"
    element := "File"
    condition := .attributeMatches "Source" "^[A-Za-z]:\\\\"
    message := "File has hardcoded absolute path in Source attribute: \x7b\x7battribute.Source\x7d\x7d"
    help := "Use relative paths or preprocessor variables like $(var.SourceDir)"
    effortMinutes := 5 },
  { id := "SEC-001"
    name := "localsystem-service"
    description := "A service running as LocalSystem has excessive privileges."
    severity := .high
    category := "security"
    element := "ServiceInstall"
    condition := .any [
      .attributeMissing "Account",
      .attributeEquals "Account" "LocalSystem"]
    message := "Service '\x7b\x7bid\x7d\x7d' runs as LocalSystem which has excessive privileges"
    help := "Consider using LocalService, NetworkService, or a dedicated service account"
    tags := ["cwe-250"]
    effortMinutes := 30 },
  { id := "SEC-005"
    name := "hardcoded-sensitive-property"
    description := "Property with a sensitive name has a hardcoded value."
    severity := .blocker
    category := "security"
    element := "Property"
    condition := .all [
      .attributeExists "Value",
      .attributeMatches "Id" "(?i)(password|secret|key|token|credential)"]
    message := "Property '\x7b\x7bid\x7d\x7d' appears to contain hardcoded sensitive data"
    help := "Remove hardcoded values and require them to be provided at install time"
    fix := some ⟨"Remove hardcoded value", {
      kind := "remove-attribute"
      name := "Value"
      value := ""
      element := ""
      attributes := []
      position := "" }⟩
    tags := ["cwe-798"]
    effortMinutes := 10 },
  { id := "DEAD-005"
    name := "empty-feature"
    description := "Feature has no content."
    severity := .low
    category := "dead-code"
    element := "Feature"
    condition := .all [
      .childCount "ComponentRef" .eq 0,
      .childCount "ComponentGroupRef" .eq 0,
      .childCount "FeatureRef" .eq 0,
      .childCount "Feature" .eq 0,
      .childCount "Component" .eq 0]
    message := "Feature '\x7b\x7bid\x7d\x7d' has no content"
    help := "Add components or remove the empty feature"
    effortMinutes := 5 },
  { id := "VAL-ATTR-001"
    name := "component-missing-guid"
    description := "Component requires a Guid attribute."
    severity := .blocker
    category := "validation"
    element := "Component"
    condition := .attributeMissing "Guid"
    message := "Component '\x7b\x7bid\x7d\x7d' is missing required Guid attribute"
    help := "Add Guid=\"*\" for auto-generation or specify a GUID"
    fix := some ⟨"Add auto-generated GUID", {
      kind := "add-attribute"
      name := "Guid"
      value := "*"
      element := ""
      attributes := []
      position := "" }⟩
    effortMinutes := 2 },
  { id := "VAL-ATTR-002"
    name := "invalid-guid-format"
    description := "GUID attribute has an invalid format."
    severity := .blocker
    category := "validation"
    element := "Component"
    condition := .all [
      .attributeExists "Guid",
      .attributeNotEquals "Guid" "*",
      .attributeNotMatches "Guid" "^[\x7b(]?[0-9a-fA-F]\x7b8\x7d-[0-9a-fA-F]\x7b4\x7d-[0-9a-fA-F]\x7b4\x7d-[0-9a-fA-F]\x7b4\x7d-[0-9a-fA-F]\x7b12\x7d[)\x7d]?$"]
    message := "Component '\x7b\x7bid\x7d\x7d' has invalid GUID format"
    help := "Use a valid GUID format or Guid=\"*\" for auto-generation"
    effortMinutes := 2 },
  { id := "VAL-ATTR-003"
    name := "invalid-yesno-value"
    description := "Permanent requires a yes/no value."
    severity := .blocker
    category := "validation"
    element := "Component"
    condition := .all [
      .attributeExists "Permanent",
      .attributeNotIn "Permanent" ["yes", "no"]]
    message := "Component '\x7b\x7bid\x7d\x7d' has invalid Permanent value '\x7b\x7battribute.Permanent\x7d\x7d', must be 'yes' or 'no'"
    effortMinutes := 1 },
  { id := "VAL-REL-001-RegistryValue"
    name := "invalid-parent-registryvalue"
    description := "RegistryValue must be a child of Component or RegistryKey."
    severity := .blocker
    category := "validation"
    element := "RegistryValue"
    condition := .parentNotIn ["Component", "RegistryKey", "RegistryValue"]
    message := "RegistryValue cannot be a child of \x7b\x7bparent\x7d\x7d. Valid parents: Component, RegistryKey"
    effortMinutes := 5 },
  { id := "VAL-REL-001-Directory"
    name := "invalid-parent-directory"
    description := "Directory must be a child of Directory, DirectoryRef, Fragment, Package or StandardDirectory."
    severity := .blocker
    category := "validation"
    element := "Directory"
    condition := .parentNotIn ["Directory", "DirectoryRef", "Fragment", "Package", "Module", "StandardDirectory", "Product", "Wix"]
    message := "Directory cannot be a child of \x7b\x7bparent\x7d\x7d. Valid parents: Directory, DirectoryRef, Fragment, Package, StandardDirectory"
    effortMinutes := 5 },
  { id := "VAL-REL-001-Feature"
    name := "invalid-parent-feature"
    description := "Feature must be a child of Package, Fragment, Feature or FeatureGroup."
    severity := .blocker
    category := "validation"
    element := "Feature"
    condition := .parentNotIn ["Package", "Fragment", "Feature", "FeatureRef", "FeatureGroup", "Module", "Product", "Wix"]
    message := "Feature cannot be a child of \x7b\x7bparent\x7d\x7d. Valid parents: Package, Fragment, Feature, FeatureGroup"
    effortMinutes := 5 },
  { id := "VAL-REL-001-Component"
    name := "invalid-parent-component"
    description := "Component must be a child of Directory, DirectoryRef, ComponentGroup or Fragment."
    severity := .blocker
    category := "validation"
    element := "Component"
    condition := .parentNotIn ["Directory", "DirectoryRef", "ComponentGroup", "Fragment", "StandardDirectory", "Package", "Module", "Product", "Feature", "Wix"]
    message := "Component cannot be a child of \x7b\x7bparent\x7d\x7d. Valid parents: Directory, DirectoryRef, ComponentGroup, Fragment"
    effortMinutes := 5 },
  { id := "VAL-REL-001-File"
    name := "invalid-parent-file"
    description := "File must be a child of Component."
    severity := .blocker
    category := "validation"
    element := "File"
    condition := .parentNotIn ["Component"]
    message := "File cannot be a child of \x7b\x7bparent\x7d\x7d. Valid parent: Component"
    effortMinutes := 5 },
  { id := "VAL-ATTR-001-Feature"
    name := "feature-missing-id"
    description := "Feature requires an Id attribute."
    severity := .blocker
    category := "validation"
    element := "Feature"
    condition := .attributeMissing "Id"
    message := "Feature is missing required Id attribute"
    effortMinutes := 1 },
  { id := "VAL-ATTR-001-CustomAction"
    name := "customaction-missing-id"
    description := "CustomAction requires an Id attribute."
    severity := .blocker
    category := "validation"
    element := "CustomAction"
    condition := .attributeMissing "Id"
    message := "CustomAction is missing required Id attribute"
    effortMinutes := 1 },
  { id := "VAL-ATTR-001-Property"
    name := "property-missing-id"
    description := "Property requires an Id attribute."
    severity := .blocker
    category := "validation"
    element := "Property"
    condition := .attributeMissing "Id"
    message := "Property is missing required Id attribute"
    effortMinutes := 1 },
  { id := "VAL-ATTR-001-RegistryValue"
    name := "registryvalue-missing-type"
    description := "RegistryValue requires a Type attribute."
    severity := .blocker
    category := "validation"
    element := "RegistryValue"
    condition := .attributeMissing "Type"
    message := "RegistryValue is missing required Type attribute"
    effortMinutes := 1 },
  { id := "BP-MAINT-002-Component"
    name := "component-naming-convention"
    description := "Component Id should follow a naming convention."
    severity := .info
    category := "maintainability"
    element := "Component"
    condition := .all [
      .attributeExists "Id",
      .attributeNotMatches "Id" "^(C_|cmp|Cmp|Component)"]
    message := "Component Id '\x7b\x7bid\x7d\x7d': Consider prefixing with 'C_' or 'cmp'"
    enabled := some false },
  { id := "BP-MAINT-002-Feature"
    name := "feature-naming-convention"
    description := "Feature Id should follow a naming convention."
    severity := .info
    category := "maintainability"
    element := "Feature"
    condition := .all [
      .attributeExists "Id",
      .attributeNotMatches "Id" "^(F_|feat|Feat|Feature)"]
    message := "Feature Id '\x7b\x7bid\x7d\x7d': Consider prefixing with 'F_' or 'feat'"
    enabled := some false },
  { id := "BP-MAINT-002-Directory"
    name := "directory-naming-convention"
    description := "Directory Id should follow a naming convention."
    severity := .info
    category := "maintainability"
    element := "Directory"
    condition := .all [
      .attributeExists "Id",
      .attributeNotMatches "Id" "^(D_|dir|Dir|Directory|TARGETDIR|ProgramFilesFolder|ProgramFiles64Folder|CommonFilesFolder|SystemFolder|WindowsFolder|TempFolder|LocalAppDataFolder|AppDataFolder|INSTALLFOLDER|INSTALLDIR)"]
    message := "Directory Id '\x7b\x7bid\x7d\x7d': Consider prefixing with 'D_' or 'dir'"
    enabled := some false },
  { id := "BP-MAINT-002-Property"
    name := "property-naming-convention"
    description := "Public Property Id should be uppercase."
    severity := .info
    category := "maintainability"
    element := "Property"
    condition := .all [
      .attributeExists "Id",
      .attributeMatches "Id" "^[a-z]"]
    message := "Property Id '\x7b\x7bid\x7d\x7d': Public properties should be UPPERCASE" }]

/-- The standard rule set. -/
def standard : RuleSet where
  name := "wix"
  version := "1.0.0"
  description := "Default rules for WiX Toolset sources."
  rules := standardRules

end RuleSet
end InstallerLint

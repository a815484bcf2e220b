import SchemaDoc.Json
import SchemaDoc.Project.Settings

/-!
Settings and limits as JSON. Every setting is written, an absent one as `null`.
-/

namespace SchemaDoc

def ProjectSettings.toJson (settings : ProjectSettings) : Json :=
  .obj [("name", Json.orNull .str settings.name), ("extension", .str settings.extension),
    ("source_root", Json.orNull .str settings.sourceRoot),
    ("ignored_paths", Json.texts settings.ignoredPaths)]

def CheckerSettings.toJson (settings : CheckerSettings) : Json :=
  .obj [("max_path_depth", .nat settings.maxPathDepth),
    ("max_load_depth", .nat settings.maxLoadDepth),
    ("max_file_size_mb", .nat settings.maxFileSizeMb)]

def RegistrySettings.toJson (settings : RegistrySettings) : Json :=
  .obj [("default_namespace", .str settings.defaultNamespace),
    ("known", Json.texts settings.known)]

def OutputSettings.toJson (settings : OutputSettings) : Json :=
  .obj [("pretty", .bool settings.pretty)]

def Settings.toJson (settings : Settings) : Json :=
  .obj [("project", settings.project.toJson), ("checker", settings.checker.toJson),
    ("registries", settings.registries.toJson), ("output", settings.output.toJson)]

def Limits.toJson (limits : Limits) : Json :=
  .obj [("max_file_size_bytes", .nat limits.maxFileSizeBytes),
    ("max_path_depth", .nat limits.maxPathDepth), ("max_load_depth", .nat limits.maxLoadDepth)]

end SchemaDoc

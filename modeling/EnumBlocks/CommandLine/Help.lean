import EnumBlocks.CommandLine.Flag
import EnumBlocks.Text.Filled
import EnumBlocks.Version

/-!
How the program is used: a summary of its options, and the list of them with a description of each.
-/

namespace EnumBlocks.CommandLine

def programName : String := "enum-editor"

def lineWidth : Nat := 78

def descriptionColumn : Nat := 24

def Flag.withPlaceholder (flag : Flag) (spelling : Text) : Text :=
  Text.joinWith [' '] (spelling :: flag.placeholder?.toList)

def Flag.summary (flag : Flag) : Text :=
  Text.joinWith [] ((flag.spellings.take 1).map flag.withPlaceholder)

def Flag.heading (flag : Flag) : Text :=
  Text.joinWith [',', ' '] (flag.spellings.map flag.withPlaceholder)

def Flag.description : Flag → String
  | .help => "show this help message and exit"
  | .list => "Показать список перечислений (по умолчанию)"
  | .showBlock => "Показать элементы перечисления"
  | .create => "Создать новое перечисление"
  | .delete => "Удалить перечисление"
  | .set => "Заменить элементы перечисления"
  | .append => "Добавить элементы в конец перечисления"
  | .entry => "Элемент: Name, \"Name = 3\", \"Name = 3 //comment\" (можно повторять)"
  | .dryRun => "Показать результат без записи в файл"
  | .legacyBraces => "Считать скобки построчно (совместимость со старыми файлами)"
  | .onlyChanged => "Перезаписывать только изменённые перечисления"
  | .indent => "Размер отступа в пробелах (по умолчанию: 4)"
  | .logFile => "Дописывать лог в файл"
  | .verbose => "Подробный вывод"

def optional (part : Text) : Text :=
  '[' :: part ++ [']']

/-- The options in the summary. Those of which one is chosen stand together. -/
def summaries : List Text :=
  optional Flag.help.summary ::
    optional (Text.joinWith [' ', '|', ' '] (Flag.choices.map Flag.summary)) ::
    Flag.details.map (optional ·.summary)

/-- The summary of the options. The file stands on a line of its own. -/
def usageLines : List String :=
  let start := s!"usage: {programName} "
  let filled := (Text.fill (lineWidth - start.length) summaries).map String.ofList ++ ["file"]
  filled.mapIdx fun index line =>
    if index = 0 then start ++ line else "".pushn ' ' start.length ++ line

/-- The lines of a heading and its description. The description begins beside the heading if there
is room for two spaces between them, and under it otherwise. -/
def describe (heading description : String) : List String :=
  let words := Text.pieces ' ' description.toList
  let filled := (Text.fill (lineWidth - descriptionColumn) words).map String.ofList
  let lines := if heading.length + 4 ≤ descriptionColumn then filled else "" :: filled
  lines.mapIdx fun index line =>
    let start := if index = 0 then s!"  {heading}" else ""
    if line = "" then start else start.pushn ' ' (descriptionColumn - start.length) ++ line

def examples : List String :=
  ["Types.cs --list -v",
   "Types.cs --show Color",
   "Types.cs --create Shape --entry Square --entry \"Circle = 2 //round\"",
   "Types.cs --set Color --entry Green --entry Red --dry-run",
   "Types.cs --delete Shape"]

def helpLines : List String :=
  usageLines ++
    ["", s!"{version} - редактирование enum в C# файлах без полного разбора",
     "", "positional arguments:"] ++
    describe "file" "Путь к C# файлу" ++
    ["", "options:"] ++
    Flag.all.flatMap (fun flag => describe (String.ofList flag.heading) flag.description) ++
    ["", "Примеры:"] ++
    examples.map (fun line => s!"  {programName} {line}") ++
    ["".pushn ' ' 8]

end EnumBlocks.CommandLine

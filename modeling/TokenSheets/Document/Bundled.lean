/-
TokenSheets/Document/Bundled.lean

The default configuration document that comes with the program.

A new project starts from this text, and the merged configuration rests on it.
-/
namespace TokenSheets

/-- The default document, line by line. -/
def bundledLines : List String :=
  ["\x7b\n",
   "  \"setup\": \x7b\n",
   "    \"prefix\": \"lz\",\n",
   "    \"separator\": \"-\",\n",
   "    \"defaultFontSize\": \"16px\",\n",
   "    \"rootVars\": \x7b\n",
   "      \"enabled\": true,\n",
   "      \"colors\": true,\n",
   "      \"spacements\": true\n",
   "    \x7d\n",
   "  \x7d,\n",
   "  \"settings\": \x7b\n",
   "    \"breakpoints\": \x7b\n",
   "      \"enabled\": true,\n",
   "      \"separator\": \"@\",\n",
   "      \"breakpoints\": \x7b\n",
   "        \"tabletV\": \"600px\",\n",
   "        \"tabletH\": \"900px\",\n",
   "        \"laptop\": \"1200px\",\n",
   "        \"desktop\": \"1600px\"\n",
   "      \x7d\n",
   "    \x7d,\n",
   "    \"colors\": \x7b\n",
   "      \"enabled\": true,\n",
   "      \"includeHTMLColors\": false,\n",
   "      \"colors\": \x7b\n",
   "        \"white\": \"#ffffff\",\n",
   "        \"black\": \"#000000\",\n",
   "        \"grey\": \"#8a8a8a\",\n",
   "        \"red\": \"#e53935\",\n",
   "        \"green\": \"#43a047\",\n",
   "        \"blue\": \"#1e88e5\",\n",
   "        \"yellow\": \"#fdd835\"\n",
   "      \x7d,\n",
   "      \"colorAlias\": \x7b\n",
   "        \"primary\": \"blue\",\n",
   "        \"danger\": \"red\",\n",
   "        \"success\": \"green\",\n",
   "        \"warning\": \"yellow\"\n",
   "      \x7d\n",
   "    \x7d,\n",
   "    \"spacing\": \x7b\n",
   "      \"enabled\": true,\n",
   "      \"defaultSpacingValue\": \"16px\",\n",
   "      \"spacements\": \x7b\n",
   "        \"none\": 0,\n",
   "        \"xxs\": 0.25,\n",
   "        \"xs\": 0.5,\n",
   "        \"sm\": 0.75,\n",
   "        \"md\": 1,\n",
   "        \"lg\": 1.5,\n",
   "        \"xl\": 2,\n",
   "        \"xxl\": 3\n",
   "      \x7d\n",
   "    \x7d\n",
   "  \x7d,\n",
   "  \"utilities\": \x7b\n",
   "    \"enabled\": true,\n",
   "    \"utilities\": \x7b\n",
   "      \"display\": \x7b\n",
   "        \"enabled\": true,\n",
   "        \"initial\": \"block\",\n",
   "        \"rules\": \x7b\n",
   "          \"none\": \"none\",\n",
   "          \"block\": \"block\",\n",
   "          \"inline\": \"inline\",\n",
   "          \"inline-block\": \"inline-block\",\n",
   "          \"flex\": \"flex\",\n",
   "          \"grid\": \"grid\"\n",
   "        \x7d\n",
   "      \x7d,\n",
   "      \"textAlign\": \x7b\n",
   "        \"enabled\": true,\n",
   "        \"initial\": \"left\",\n",
   "        \"rules\": \x7b\n",
   "          \"left\": \"left\",\n",
   "          \"center\": \"center\",\n",
   "          \"right\": \"right\",\n",
   "          \"justify\": \"justify\"\n",
   "        \x7d\n",
   "      \x7d,\n",
   "      \"textColor\": \x7b\n",
   "        \"enabled\": true,\n",
   "        \"initial\": \"inherit\"\n",
   "      \x7d,\n",
   "      \"backgroundColor\": \x7b\n",
   "        \"enabled\": true,\n",
   "        \"initial\": \"transparent\"\n",
   "      \x7d,\n",
   "      \"margin\": \x7b\n",
   "        \"enabled\": true,\n",
   "        \"initial\": \"0\",\n",
   "        \"measureUnit\": \"rem\"\n",
   "      \x7d,\n",
   "      \"padding\": \x7b\n",
   "        \"enabled\": true,\n",
   "        \"initial\": \"0\",\n",
   "        \"measureUnit\": \"rem\"\n",
   "      \x7d,\n",
   "      \"fontWeight\": \x7b\n",
   "        \"enabled\": false,\n",
   "        \"initial\": \"400\",\n",
   "        \"rules\": \x7b\n",
   "          \"light\": \"300\",\n",
   "          \"regular\": \"400\",\n",
   "          \"bold\": \"700\"\n",
   "        \x7d\n",
   "      \x7d\n",
   "    \x7d\n",
   "  \x7d\n",
   "\x7d\n"]

/-- The text of the default document. -/
def bundledText : String := String.join bundledLines

/-- The name of the default document in its directory. -/
def defaultConfigName : String := "lazit_default.conf.json"

/-- The name of the user document in the working directory. -/
def userConfigName : String := "lazit.conf.json"

end TokenSheets

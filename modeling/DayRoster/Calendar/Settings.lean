import DayRoster.Calendar.Date

/-!
The settings under which rules are applied and calendars are printed: the first day of the week, and
the language in which the months are named.
-/

set_option autoImplicit false

namespace DayRoster

/-- A language as it is used in a country: its code, and the full names of the months from January
to December. -/
structure Locale where
  code : String
  monthNames : List String
  length_monthNames : monthNames.length = 12 := by rfl
  deriving DecidableEq

namespace Locale

def enUS : Locale where
  code := "en_US"
  monthNames :=
    ["January", "February", "March", "April", "May", "June", "July", "August", "September",
      "October", "November", "December"]

def frFR : Locale where
  code := "fr_FR"
  monthNames :=
    ["janvier", "février", "mars", "avril", "mai", "juin", "juillet", "août", "septembre",
      "octobre", "novembre", "décembre"]

def deDE : Locale where
  code := "de_DE"
  monthNames :=
    ["Januar", "Februar", "März", "April", "Mai", "Juni", "Juli", "August", "September", "Oktober",
      "November", "Dezember"]

def esES : Locale where
  code := "es_ES"
  monthNames :=
    ["enero", "febrero", "marzo", "abril", "mayo", "junio", "julio", "agosto", "septiembre",
      "octubre", "noviembre", "diciembre"]

def itIT : Locale where
  code := "it_IT"
  monthNames :=
    ["gennaio", "febbraio", "marzo", "aprile", "maggio", "giugno", "luglio", "agosto", "settembre",
      "ottobre", "novembre", "dicembre"]

def ptBR : Locale where
  code := "pt_BR"
  monthNames :=
    ["janeiro", "fevereiro", "março", "abril", "maio", "junho", "julho", "agosto", "setembro",
      "outubro", "novembro", "dezembro"]

def nlNL : Locale where
  code := "nl_NL"
  monthNames :=
    ["januari", "februari", "maart", "april", "mei", "juni", "juli", "augustus", "september",
      "oktober", "november", "december"]

def svSE : Locale where
  code := "sv_SE"
  monthNames :=
    ["januari", "februari", "mars", "april", "maj", "juni", "juli", "augusti", "september",
      "oktober", "november", "december"]

def plPL : Locale where
  code := "pl_PL"
  monthNames :=
    ["stycznia", "lutego", "marca", "kwietnia", "maja", "czerwca", "lipca", "sierpnia", "września",
      "października", "listopada", "grudnia"]

def csCZ : Locale where
  code := "cs_CZ"
  monthNames :=
    ["ledna", "února", "března", "dubna", "května", "června", "července", "srpna", "září", "října",
      "listopadu", "prosince"]

def trTR : Locale where
  code := "tr_TR"
  monthNames :=
    ["Ocak", "Şubat", "Mart", "Nisan", "Mayıs", "Haziran", "Temmuz", "Ağustos", "Eylül", "Ekim",
      "Kasım", "Aralık"]

def ruRU : Locale where
  code := "ru_RU"
  monthNames :=
    ["января", "февраля", "марта", "апреля", "мая", "июня", "июля", "августа", "сентября",
      "октября", "ноября", "декабря"]

def elGR : Locale where
  code := "el_GR"
  monthNames :=
    ["Ιανουαρίου", "Φεβρουαρίου", "Μαρτίου", "Απριλίου", "Μαΐου", "Ιουνίου", "Ιουλίου",
      "Αυγούστου", "Σεπτεμβρίου", "Οκτωβρίου", "Νοεμβρίου", "Δεκεμβρίου"]

def jaJP : Locale where
  code := "ja_JP"
  monthNames :=
    ["1月", "2月", "3月", "4月", "5月", "6月", "7月", "8月", "9月", "10月", "11月", "12月"]

def zhCN : Locale where
  code := "zh_CN"
  monthNames :=
    ["一月", "二月", "三月", "四月", "五月", "六月", "七月", "八月", "九月", "十月", "十一月", "十二月"]

def koKR : Locale where
  code := "ko_KR"
  monthNames :=
    ["1월", "2월", "3월", "4월", "5월", "6월", "7월", "8월", "9월", "10월", "11월", "12월"]

def arEG : Locale where
  code := "ar_EG"
  monthNames :=
    ["يناير", "فبراير", "مارس", "أبريل", "مايو", "يونيو", "يوليو", "أغسطس", "سبتمبر", "أكتوبر",
      "نوفمبر", "ديسمبر"]

def posix : Locale where
  code := "POSIX"
  monthNames := enUS.monthNames

def all : List Locale :=
  [enUS, frFR, deDE, esES, itIT, ptBR, nlNL, svSE, plPL, csCZ, trTR, ruRU, elGR, jaJP, zhCN, koKR,
    arEG, posix]

def ofCode? (code : String) : Option Locale := all.find? fun locale => locale.code = code

end Locale

structure Settings where
  weekStart : Weekday := .sunday
  locale : Locale := .enUS
  deriving DecidableEq

namespace Settings

def position (settings : Settings) (d : Date) : Nat :=
  Weekday.position settings.weekStart d.weekday

/-- The days of the week in the order in which a calendar shows them. -/
def weekdays (settings : Settings) : List Weekday := Weekday.week settings.weekStart

theorem position_lt (settings : Settings) (d : Date) : settings.position d < 7 :=
  Weekday.position_lt _ _

end Settings

end DayRoster
